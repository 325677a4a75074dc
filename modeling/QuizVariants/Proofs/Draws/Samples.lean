import Mathlib.Data.List.Perm.Subperm
import Mathlib.Data.Option.Basic
import QuizVariants.Proofs.Draws.Runs

/-! Samples of a list.
A sample takes items from distinct places of a list, as many as it is asked for or as there are.
Each such choice of items, in each order, is the sample on some draws.
-/

namespace QuizVariants.Random

-----------------------------------------------------------------------------------------
-- Choices of one item
-----------------------------------------------------------------------------------------

theorem choose?_eq_none_iff {items : List α} {draws : Draws}
    : ((choose? items).run draws).1 = none ↔ items = [] := by
  cases items with
  | nil => exact iff_of_true rfl rfl
  | cons first rest => exact iff_of_false nofun (List.cons_ne_nil _ _)

theorem mem_of_choose? {items : List α} {draws : Draws} {item : α}
    (h : ((choose? items).run draws).1 = some item)
    : item ∈ items := by
  cases items with
  | nil => exact nomatch h
  | cons first rest =>
      obtain rfl := Option.some.inj h
      exact List.get_mem _ _

/-- Every item of a list is chosen on some draws; witness: the stream of its place. -/
theorem exists_choose? {items : List α} {item : α} (member : item ∈ items)
    : ∃ draws, ((choose? items).run draws).1 = some item := by
  obtain ⟨⟨place, inside⟩, found⟩ := List.mem_iff_get.mp member
  refine ⟨{ source := fun _ => place }, ?_⟩
  cases items with
  | nil => exact nomatch member
  | cons first rest =>
      have drawn : place % (first :: rest).length = place := Nat.mod_eq_of_lt inside
      rw [← found]
      refine congrArg some (congrArg (first :: rest).get (Fin.ext drawn))

-----------------------------------------------------------------------------------------
-- Items at places
-----------------------------------------------------------------------------------------

/-- Items that stand at distinct places of a list, in the order of the places. -/
structure TakenAt (items : List α) (places : List Nat) (taken : List α) : Prop where
  distinct : places.Nodup
  items : places.map (items[·]?) = taken.map some

theorem subperm_map (f : α → β) {items taken : List α} (h : taken.Subperm items)
    : (taken.map f).Subperm (items.map f) := by
  obtain ⟨between, same, inside⟩ := h
  exact ⟨between.map f, same.map f, inside.map f⟩

/-- An order of the images of items is the image of an order of the items. -/
theorem exists_of_perm_map {f : α → β} {items : List α} {images : List β}
    (h : images.Perm (items.map f))
    : ∃ order : List α, order.Perm items ∧ order.map f = images := by
  have related : Relation.Comp (fun images order => images = order.map f) List.Perm images items :=
    List.eq_map_comp_perm f ▸ h
  obtain ⟨order, same, ordered⟩ := related
  exact ⟨order, ordered, same.symm⟩

/-- What is taken from the images of items is the image of what is taken from the items. -/
theorem exists_of_subperm_map {f : α → β} {items : List α} {taken : List β}
    (h : taken.Subperm (items.map f))
    : ∃ before : List α, before.Subperm items ∧ before.map f = taken := by
  obtain ⟨between, same, inside⟩ := h
  obtain ⟨kept, within, rfl⟩ := List.sublist_map_iff.mp inside
  obtain ⟨before, ordered, images⟩ := exists_of_perm_map same.symm
  exact ⟨before, ⟨kept, ordered.symm, within⟩, images⟩

/-- Each item of a list stands at one of its places. -/
theorem map_range_getElem? (items : List α)
    : (List.range items.length).map (items[·]?) = items.map some := by
  refine List.ext_getElem (by simp) fun place inside _ => ?_
  simp

/-- Items stand at distinct places of a list exactly if they are taken from it. -/
theorem exists_takenAt_iff {items taken : List α}
    : (∃ places, TakenAt items places taken) ↔ taken.Subperm items := by
  constructor
  · rintro ⟨places, distinct, stand⟩
    have inside : places ⊆ List.range items.length := by
      intro place member
      have found : items[place]? ∈ taken.map some := stand ▸ List.mem_map_of_mem member
      obtain ⟨item, _, same⟩ := List.mem_map.mp found
      exact List.mem_range.mpr (List.getElem?_eq_some_iff.mp same.symm).1
    have images := subperm_map (items[·]?) (distinct.subperm inside)
    rw [stand, map_range_getElem?] at images
    exact (List.map_subperm_map_iff (Option.some_injective α)).mp images
  · intro h
    have images : (taken.map some).Subperm ((List.range items.length).map (items[·]?)) :=
      map_range_getElem? items ▸ subperm_map some h
    obtain ⟨places, ⟨between, same, within⟩, stand⟩ := exists_of_subperm_map images
    exact ⟨places, same.nodup_iff.mp (within.nodup List.nodup_range), stand⟩

/-- Items that pass a test are taken from the list of those that do. -/
theorem subperm_filter_iff {test : α → Bool} {items taken : List α}
    : taken.Subperm (items.filter test)
      ↔ taken.Subperm items ∧ ∀ item ∈ taken, test item = true := by
  constructor
  · intro h
    exact ⟨h.trans List.filter_sublist.subperm,
      fun item member => (List.mem_filter.mp (h.subset member)).2⟩
  · rintro ⟨h, passes⟩
    rw [← List.filter_eq_self.mpr passes]
    exact h.filter test

-----------------------------------------------------------------------------------------
-- Samples
-----------------------------------------------------------------------------------------

/-- A sample is an item and a sample of the others. -/
theorem run_sample_succ (count : Nat) (first : α) (rest : List α) (draws : Draws)
    : let items := first :: rest
      let place : Fin items.length :=
        ⟨draws.source draws.used % items.length, Nat.mod_lt _ (Nat.zero_lt_succ _)⟩
      let others :=
        (sample count (items.eraseIdx place)).run { draws with used := draws.used + 1 }
      (sample (count + 1) items).run draws = (items[place] :: others.1, others.2) :=
  rfl

/-- A sample of a list with enough items is as long as was asked for, by induction on the items that
are still to be taken. -/
theorem length_sample {count : Nat} {items : List α} (enough : count ≤ items.length)
    (draws : Draws)
    : ((sample count items).run draws).1.length = count := by
  induction count generalizing items draws with
  | zero => rfl
  | succ count ih =>
      cases items with
      | nil => exact absurd enough (Nat.not_succ_le_zero count)
      | cons first rest =>
          rw [run_sample_succ, List.length_cons, ih]
          rw [List.length_eraseIdx_of_lt (Fin.isLt _)]
          exact Nat.le_of_succ_le_succ enough

/-- A sample is taken from the list, by induction on the items that are still to be taken. -/
theorem subperm_sample (count : Nat) (items : List α) (draws : Draws)
    : ((sample count items).run draws).1.Subperm items := by
  induction count generalizing items draws with
  | zero => exact List.nil_subperm
  | succ count ih =>
      cases items with
      | nil => exact List.nil_subperm
      | cons first rest =>
          rw [run_sample_succ]
          refine ((List.subperm_cons _).mpr (ih _ _)).trans ?_
          exact (List.getElem_cons_eraseIdx_perm (Fin.isLt _)).subperm

/-- The stream that starts with some numbers. -/
def streamOf (numbers : List Nat) (place : Nat) : Nat :=
  numbers[place]?.getD 0

/-- What is taken from a list is a sample of it on a stream of its places, which may follow on
numbers that are used up; by induction on what is taken. -/
theorem exists_stream {items taken : List α} (h : taken.Subperm items)
    : ∃ numbers : List Nat, ∀ used : List Nat,
        ((sample taken.length items).run ⟨streamOf (used ++ numbers), used.length⟩).1 = taken := by
  induction taken generalizing items with
  | nil => exact ⟨[], fun _ => rfl⟩
  | cons item others ih =>
      obtain ⟨⟨place, inside⟩, rfl⟩ := List.mem_iff_get.mp (h.subset List.mem_cons_self)
      have left : others.Subperm (items.eraseIdx place) :=
        (List.subperm_cons _).mp
          (h.trans (List.getElem_cons_eraseIdx_perm inside).symm.subperm)
      obtain ⟨numbers, sampled⟩ := ih left
      refine ⟨place :: numbers, fun used => ?_⟩
      cases items with
      | nil => exact absurd inside (Nat.not_lt_zero place)
      | cons first rest =>
          have drawn : streamOf (used ++ place :: numbers) used.length % (first :: rest).length
              = place := by
            rw [streamOf, List.getElem?_append_right (Nat.le_refl _), Nat.sub_self]
            exact Nat.mod_eq_of_lt inside
          have next := sampled (used ++ [place])
          rw [List.append_assoc, List.singleton_append, List.length_append] at next
          change ((sample (others.length + 1) (first :: rest)).run _).1 = _
          simp only [run_sample_succ, drawn]
          exact congrArg _ next

/-- The samples of a list with enough items are what can be taken from it. -/
theorem exists_sample_iff {count : Nat} {items taken : List α} (enough : count ≤ items.length)
    : (∃ draws, ((sample count items).run draws).1 = taken)
      ↔ taken.length = count ∧ taken.Subperm items := by
  constructor
  · rintro ⟨draws, rfl⟩
    exact ⟨length_sample enough draws, subperm_sample count items draws⟩
  · rintro ⟨rfl, h⟩
    obtain ⟨numbers, sampled⟩ := exists_stream h
    exact ⟨_, sampled []⟩

/-- The shuffles of a list are its orders. -/
theorem exists_shuffle_iff {items order : List α}
    : (∃ draws, ((shuffle items).run draws).1 = order) ↔ order.Perm items := by
  rw [shuffle, exists_sample_iff (Nat.le_refl _)]
  constructor
  · exact fun ⟨length, h⟩ => h.perm_of_length_le (Nat.le_of_eq length.symm)
  · exact fun h => ⟨h.length_eq, h.subperm⟩

end QuizVariants.Random
