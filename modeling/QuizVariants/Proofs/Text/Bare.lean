import QuizVariants.Proofs.Text.Layout
import QuizVariants.Text.Word

/-! Bare characters.
Numbers, keywords and identifiers are written with letters, digits, underscores, signs and points
alone, which have no other meaning in a source.
-/

namespace QuizVariants.Text

/-- A character of some kind differs from all that are not of that kind. -/
theorem ne_of_kind {kind : Char → Bool} {c other : Char} (inside : kind c = true)
    (outside : kind other = false)
    : c ≠ other := by
  rintro rfl
  exact Bool.noConfusion (inside.symm.trans outside)

/-- All characters of a name may follow its first one. -/
theorem continuesName_of_isName {name : List Char} (named : isName name = true)
    : ∀ c ∈ name, continuesName c = true := by
  cases name with
  | nil => exact nomatch named
  | cons c rest =>
      obtain ⟨starts, others⟩ := Bool.and_eq_true_iff.mp named
      refine List.forall_mem_cons.mpr ⟨?_, List.all_eq_true.mp others⟩
      rw [continuesName, starts, Bool.true_or]

/-- The characters of names are characters of words. -/
theorem isWord_of_continuesName {c : Char} (h : continuesName c = true) : isWord c = true := by
  have code : (48 ≤ c.toNat ∧ c.toNat ≤ 57) ∨ (65 ≤ c.toNat ∧ c.toNat ≤ 90)
      ∨ (95 ≤ c.toNat ∧ c.toNat ≤ 95) ∨ (97 ≤ c.toNat ∧ c.toNat ≤ 122) := by
    simp only [continuesName, startsName, isLetter, isDigit, Bool.or_eq_true,
      Bool.and_eq_true, beq_iff_eq, decide_eq_true_eq, Char.le_def, UInt32.le_iff_toNat_le] at h
    rcases h with ((small | large) | rfl) | digit
    · exact Or.inr (Or.inr (Or.inr small))
    · exact Or.inr (Or.inl large)
    · decide
    · exact Or.inl digit
  have inside (first last : Nat) (member : (first, last) ∈ wordRanges)
      (within : first ≤ c.toNat ∧ c.toNat ≤ last)
      : isWord c = true := by
    refine List.any_eq_true.mpr ⟨(first, last), member, ?_⟩
    simpa using within
  rcases code with digit | large | low | small
  · exact inside _ _ (by decide) digit
  · exact inside _ _ (by decide) large
  · exact inside _ _ (by decide) low
  · exact inside _ _ (by decide) small

/-- A text does not go on with a character of some kind. -/
def Stops (kind : Char → Bool) (rest : List Char) : Prop :=
  ∀ c ∈ rest.head?, kind c = false

theorem stops_nil (kind : Char → Bool) : Stops kind [] :=
  fun _ first => nomatch first

theorem stops_cons {kind : Char → Bool} {c : Char} {rest : List Char}
    : Stops kind (c :: rest) ↔ kind c = false := by
  simp [Stops]

theorem Stops.append {kind : Char → Bool} {first second : List Char} (h : Stops kind first)
    (next : Stops kind second)
    : Stops kind (first ++ second) := by
  cases first with
  | nil => exact next
  | cons c first => exact stops_cons.mpr (stops_cons.mp h)

/-- A run of characters of some kind ends where the text does not go on with one. -/
theorem takeWhile_append_of_stops {kind : Char → Bool} {run rest : List Char}
    (all : ∀ c ∈ run, kind c = true) (stops : Stops kind rest)
    : (run ++ rest).takeWhile kind = run := by
  rw [List.takeWhile_append_of_pos all]
  cases rest with
  | nil => rw [List.takeWhile_nil, List.append_nil]
  | cons c rest => simp [stops_cons.mp stops]

theorem dropWhile_append_of_stops {kind : Char → Bool} {run rest : List Char}
    (all : ∀ c ∈ run, kind c = true) (stops : Stops kind rest)
    : (run ++ rest).dropWhile kind = rest := by
  rw [List.dropWhile_append_of_pos all]
  cases rest with
  | nil => rfl
  | cons c rest => simp [stops_cons.mp stops]

/-- What is dropped in front of a text stands in front of it. -/
theorem dropWhile_append_stops {kind : Char → Bool} {rest : List Char} (stops : Stops kind rest)
    (text : List Char)
    : (text ++ rest).dropWhile kind = text.dropWhile kind ++ rest := by
  rw [List.dropWhile_append]
  split
  · next none =>
    rw [List.isEmpty_iff.mp none, List.nil_append]
    exact dropWhile_append_of_stops (List.forall_mem_nil _) stops
  · rfl

/-- A name is read up to a character that is no part of one. -/
theorem name?_append {name rest : List Char} (named : isName name = true)
    (stops : Stops continuesName rest)
    : name? (name ++ rest) = some (name, rest) := by
  cases name with
  | nil => exact nomatch named
  | cons first more =>
      obtain ⟨starts, others⟩ := Bool.and_eq_true_iff.mp named
      have continues := List.all_eq_true.mp others
      rw [List.cons_append, name?, if_pos starts, takeWhile_append_of_stops continues stops,
        dropWhile_append_of_stops continues stops]

/-- A character of a number, a keyword or an identifier. -/
def isBare (c : Char) : Bool :=
  c == '-' || c == '.' || continuesName c

theorem isBare_of_continuesName {c : Char} (h : continuesName c = true) : isBare c = true := by
  rw [isBare, h, Bool.or_true]

theorem isBare_of_isDigit {c : Char} (h : isDigit c = true) : isBare c = true :=
  isBare_of_continuesName (by rw [continuesName, h, Bool.or_true])

/-- A bare character shows; witness: the ranges of bare and of blank characters do not meet. -/
theorem isBlank_of_isBare {c : Char} (bare : isBare c = true) : isBlank c = false := by
  -- The code points of the minus, the point, the digits, the letters and the underscore.
  have code : c.toNat = 45 ∨ c.toNat = 46 ∨ (48 ≤ c.toNat ∧ c.toNat ≤ 57)
      ∨ (65 ≤ c.toNat ∧ c.toNat ≤ 90) ∨ c.toNat = 95 ∨ (97 ≤ c.toNat ∧ c.toNat ≤ 122) := by
    simp only [isBare, continuesName, startsName, isLetter, isDigit, Bool.or_eq_true,
      Bool.and_eq_true, beq_iff_eq, decide_eq_true_eq, Char.le_def, UInt32.le_iff_toNat_le] at bare
    rcases bare with (rfl | rfl) | ((small | large) | rfl) | digit
    · exact Or.inl rfl
    · exact Or.inr (Or.inl rfl)
    · exact Or.inr (Or.inr (Or.inr (Or.inr (Or.inr small))))
    · exact Or.inr (Or.inr (Or.inr (Or.inl large)))
    · exact Or.inr (Or.inr (Or.inr (Or.inr (Or.inl rfl))))
    · exact Or.inr (Or.inr (Or.inl digit))
  refine Bool.eq_false_iff.mpr (fun blank => ?_)
  simp only [isBlank, Bool.or_eq_true, Bool.and_eq_true, beq_iff_eq, decide_eq_true_eq] at blank
  omega

theorem trimmed_of_bare {text : List Char} (bare : ∀ c ∈ text, isBare c = true) : Trimmed text :=
  trimmed_iff.mpr ⟨fun c first => isBlank_of_isBare (bare c (List.mem_of_head? first)),
    fun c last => isBlank_of_isBare (bare c (List.mem_of_getLast? last))⟩

theorem not_mem_of_bare {text : List Char} {other : Char} (bare : ∀ c ∈ text, isBare c = true)
    (apart : isBare other = false)
    : other ∉ text :=
  fun member => ne_of_kind (bare other member) apart rfl

end QuizVariants.Text
