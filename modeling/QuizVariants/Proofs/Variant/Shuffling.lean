import QuizVariants.Proofs.Draws.Samples
import QuizVariants.Proofs.Variant.Rendering

/-! Shuffled choices.
A shuffle shows the choices in any order and keeps track of the correct one by its place, so that
choices with equal texts are not mixed up.
-/

namespace QuizVariants

namespace Variant

/-- A choice with its place. -/
def choiceAt (choices : List String) (place : Nat) : String × Nat :=
  (choices[place]?.getD "", place)

theorem zipIdx_eq (choices : List String)
    : choices.zipIdx = (List.range choices.length).map (choiceAt choices) := by
  refine List.ext_getElem (by simp) fun place inside _ => ?_
  have inside : place < choices.length := by simpa using inside
  simp [choiceAt, inside]

/-- Choices in some order with their places are the choices at these places in this order. -/
theorem perm_zipIdx_iff {choices : List String} {order : List (String × Nat)}
    : order.Perm choices.zipIdx
      ↔ ∃ places : List Nat,
          places.Perm (List.range choices.length) ∧ places.map (choiceAt choices) = order := by
  rw [zipIdx_eq]
  constructor
  · exact Random.exists_of_perm_map
  · rintro ⟨places, ordered, rfl⟩
    exact ordered.map _

/-- Texts show choices in an order of their places, and the first choice stands at the key. -/
structure Shuffles (choices : List String) (places : List Nat) (texts : List String) (key : Nat)
    : Prop where
  ordered : places.Perm (List.range choices.length)
  shown : places.map (choices[·]?) = texts.map some
  key : places[key]? = some 0

theorem run_shuffledChoices?_of_isEmpty {variant : Variant} (none : variant.choices = [])
    (draws : Draws)
    : variant.shuffledChoices?.run draws = (.none, draws) := by
  rw [shuffledChoices?, none]
  rfl

theorem run_shuffledChoices? {variant : Variant} (some : variant.choices ≠ []) (draws : Draws)
    : let order := (Random.shuffle variant.choices.zipIdx).run draws
      let key := order.1.findIdx (fun choice => choice.2 == 0)
      variant.shuffledChoices?.run draws = (.some (order.1.map Prod.fst, key), order.2) := by
  have given : variant.choices.isEmpty = false := List.isEmpty_eq_false_iff.mpr some
  rw [shuffledChoices?, given]
  rfl

/-- The place of the first choice in an order is the key, since it comes there once. -/
theorem getElem?_eq_zero_iff {choices : List String} {places : List Nat} {key : Nat}
    (given : choices ≠ []) (ordered : places.Perm (List.range choices.length))
    : places[key]? = some 0
      ↔ (places.map (choiceAt choices)).findIdx (fun choice => choice.2 == 0) = key := by
  have first : 0 ∈ places :=
    ordered.mem_iff.mpr (List.mem_range.mpr (List.length_pos_of_ne_nil given))
  have distinct : places.Nodup := ordered.nodup_iff.mpr List.nodup_range
  have same : (places.map (choiceAt choices)).findIdx (fun choice => choice.2 == 0)
      = places.idxOf 0 := by
    rw [List.findIdx_map]
    rfl
  rw [same]
  constructor
  · intro found
    obtain ⟨inside, zero⟩ := List.getElem?_eq_some_iff.mp found
    rw [← zero, distinct.idxOf_getElem]
  · rintro rfl
    rw [List.getElem?_eq_getElem (List.idxOf_lt_length_of_mem first), List.getElem_idxOf]

/-- The texts at places that exist are those of the choices. -/
theorem map_getElem?_eq_iff {choices texts : List String} {places : List Nat}
    (ordered : places.Perm (List.range choices.length))
    : places.map (choices[·]?) = texts.map some
      ↔ (places.map (choiceAt choices)).map Prod.fst = texts := by
  have stand : places.map (choices[·]?)
      = ((places.map (choiceAt choices)).map Prod.fst).map some := by
    rw [List.map_map, List.map_map]
    refine List.map_congr_left fun place member => ?_
    have inside : place < choices.length := List.mem_range.mp (ordered.mem_iff.mp member)
    simp [choiceAt, inside]
  rw [stand]
  exact List.map_inj_right fun _ _ => Option.some.inj

/-- The shuffled choices are, on some draws, the choices in each order, and on all draws in one. -/
theorem exists_shuffledChoices?_iff {variant : Variant} (given : variant.choices ≠ [])
    {shown : Option (List String × Nat)}
    : (∃ draws, (variant.shuffledChoices?.run draws).1 = shown)
      ↔ ∃ places texts key,
          Shuffles variant.choices places texts key ∧ shown = some (texts, key) := by
  have drawn (order : List (String × Nat)) :=
    (@Random.exists_shuffle_iff _ variant.choices.zipIdx order).trans perm_zipIdx_iff
  simp only [run_shuffledChoices? given]
  constructor
  · rintro ⟨draws, rfl⟩
    obtain ⟨places, ordered, order⟩ := (drawn _).mp ⟨draws, rfl⟩
    rw [← order]
    exact ⟨places, _, _, ⟨ordered, (map_getElem?_eq_iff ordered).mpr rfl,
      (getElem?_eq_zero_iff given ordered).mpr rfl⟩, rfl⟩
  · rintro ⟨places, texts, key, shuffles, rfl⟩
    obtain ⟨draws, order⟩ := (drawn _).mpr ⟨places, shuffles.ordered, rfl⟩
    refine ⟨draws, ?_⟩
    rw [order, (map_getElem?_eq_iff shuffles.ordered).mp shuffles.shown,
      (getElem?_eq_zero_iff given shuffles.ordered).mp shuffles.key]

variable {choices texts : List String} {places : List Nat} {key : Nat}

/-- A shuffle shows every choice as often as it is one. -/
theorem Shuffles.perm (h : Shuffles choices places texts key) : texts.Perm choices := by
  have images := h.ordered.map (choices[·]?)
  rw [h.shown, Random.map_range_getElem?] at images
  exact (List.map_perm_map_iff (Option.some_injective String)).mp images

/-- The text at the key is that of the first choice. -/
theorem Shuffles.getElem?_key (h : Shuffles choices places texts key) {first : String}
    (given : choices.head? = some first)
    : texts[key]? = some first := by
  have shown := congrArg (·[key]?) h.shown
  simp only [List.getElem?_map, h.key, Option.map_some] at shown
  rw [← List.head?_eq_getElem?, given] at shown
  obtain ⟨text, stands, same⟩ := Option.map_eq_some_iff.mp shown.symm
  rw [stands, same]

/-- The first choice of what an instantiation makes is its answer. -/
theorem head?_choices_of_instantiate {definition : Definition} {context : Context} {draws : Draws}
    {variant : Variant} (made : ((definition.instantiate context).run draws).1.variant = variant)
    (given : variant.choices ≠ [])
    : variant.choices.head? = some variant.answer := by
  subst made
  refine Definition.head?_choices (fun none => given ?_) context draws
  rw [← List.length_eq_zero_iff, Definition.length_choices, none, List.length_nil]

/-- A shuffle keeps the key right.
Without choices there is nothing to show. Otherwise what is shown are the choices, each as often as
it is one, with a place at which the first one stands; and this is, on some draws, each order of the
places of the choices together with the place of the first one in it. The text there is accepted as
the answer of every variant that comes of an instantiation. -/
theorem shuffledChoices?_keepsKey (variant : Variant)
    : let run := variant.shuffledChoices?.run
      (variant.choices = [] → ∀ draws, run draws = (none, draws))
      ∧ (variant.choices ≠ [] →
          (∀ draws, ∃ texts key,
            (run draws).1 = some (texts, key)
            ∧ texts.Perm variant.choices
            ∧ key < texts.length
            ∧ texts[key]? = variant.choices.head?
            ∧ ∀ (definition : Definition) (context : Context) (before : Draws),
                ((definition.instantiate context).run before).1.variant = variant
                → ∃ text, texts[key]? = some text ∧ variant.checkAnswer text = true)
          ∧ ∀ texts key,
              (∃ draws, (run draws).1 = some (texts, key))
              ↔ ∃ places, Shuffles variant.choices places texts key) := by
  intro run
  refine ⟨run_shuffledChoices?_of_isEmpty, fun given => ⟨fun draws => ?_, fun texts key => ?_⟩⟩
  · obtain ⟨places, texts, key, shuffles, shown⟩ :=
      (exists_shuffledChoices?_iff given).mp ⟨draws, rfl⟩
    obtain ⟨first, rest, split⟩ := List.exists_cons_of_ne_nil given
    have head : variant.choices.head? = some first := by rw [split, List.head?_cons]
    have stands := shuffles.getElem?_key head
    refine ⟨texts, key, shown, shuffles.perm, (List.getElem?_eq_some_iff.mp stands).1,
      stands.trans head.symm, fun definition context before made => ⟨first, stands, ?_⟩⟩
    have answer := (head?_choices_of_instantiate made given).symm.trans head
    rw [checkAnswer, Option.some.inj answer, beq_self_eq_true]
  · rw [exists_shuffledChoices?_iff given]
    constructor
    · rintro ⟨places, _, _, shuffles, ⟨⟩⟩
      exact ⟨places, shuffles⟩
    · rintro ⟨places, shuffles⟩
      exact ⟨places, texts, key, shuffles, rfl⟩

end Variant

end QuizVariants
