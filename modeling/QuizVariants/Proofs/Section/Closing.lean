import QuizVariants.Proofs.Literal.Triples
import QuizVariants.Proofs.Section.Strings

/-! Ends of strings over several lines.
A string in triple quotes ends with the first line behind which it is closed, and commas and blanks
behind the closing marks do not count. So lines that show nothing but marks and commas end a string
at its own opening marks.
-/

namespace QuizVariants.Section

open QuizVariants.Text
open QuizVariants.Literal (isQuote plain_of_isBlank triple)

-----------------------------------------------------------------------------------------
-- The lines that a string takes
-----------------------------------------------------------------------------------------

theorem joinWith_newline (text line : List Char) (rest : List (List Char))
    : joinWith ['\n'] (text :: line :: rest)
        = joinWith ['\n'] ((text ++ '\n' :: line) :: rest) := by
  simp [joinWith_cons]

/-- A text takes lines up to the first one behind which it is closed; by induction on the lines. -/
theorem exists_of_closesTriple {mark : Char} {text : List Char} {ls : List (List Char)}
    (h : closesTriple mark (joinWith ['\n'] (text :: ls)) = true)
    : ∃ taken later, ls = taken ++ later
      ∧ closeTriple mark text ls = some (joinWith ['\n'] (text :: taken), later)
      ∧ closesTriple mark (joinWith ['\n'] (text :: taken)) = true
      ∧ ∀ fewer more, taken = fewer ++ more → more ≠ [] →
        closesTriple mark (joinWith ['\n'] (text :: fewer)) = false := by
  have none (fewer more : List (List Char)) (split : [] = fewer ++ more) (some : more ≠ [])
      : closesTriple mark (joinWith ['\n'] (text :: fewer)) = false :=
    absurd (List.append_eq_nil_iff.mp split.symm).2 some
  induction ls generalizing text with
  | nil =>
      refine ⟨[], [], rfl, ?_, h, none⟩
      rw [closeTriple, if_pos (show closesTriple mark text = true from h)]
      rfl
  | cons line rest ih =>
      by_cases closed : closesTriple mark text = true
      · refine ⟨[], line :: rest, rfl, ?_, closed, none⟩
        rw [closeTriple, if_pos closed]
        rfl
      · rw [joinWith_newline] at h
        obtain ⟨taken, later, split, found, closes, first⟩ := ih h
          (fun _ _ split some => absurd (List.append_eq_nil_iff.mp split.symm).2 some)
        refine ⟨line :: taken, later, by rw [split]; rfl, ?_, ?_, fun fewer more same some => ?_⟩
        · rw [closeTriple, if_neg closed, found, joinWith_newline]
        · rwa [joinWith_newline]
        · cases fewer with
          | nil => exact Bool.eq_false_iff.mpr closed
          | cons line' fewer =>
              obtain ⟨rfl, rest'⟩ := List.cons.inj same
              rw [joinWith_newline]
              exact first fewer more rest' some

-----------------------------------------------------------------------------------------
-- Texts that end at the marks in front of them
-----------------------------------------------------------------------------------------

theorem byteCount_append (first second : List Char)
    : byteCount (first ++ second) = byteCount first + byteCount second := by
  have start (text : List Char) (count : Nat)
      : text.foldl (fun count c => count + c.utf8Size) count = count + byteCount text := by
    induction text generalizing count with
    | nil => rfl
    | cons c text ih => rw [byteCount, List.foldl_cons, List.foldl_cons, ih, ih (0 + _)]; omega
  rw [byteCount, List.foldl_append, start, start, Nat.zero_add]

/-- A text that shows nothing but marks at its start and commas at its end. -/
inductive OnlyMarks (mark : Char) : List Char → Prop where
  | intro {marks blanks commas : List Char} (first : ∀ c ∈ marks, c = mark) (between : Blanks blanks)
      (last : ∀ c ∈ commas, c = ',') : OnlyMarks mark (marks ++ (blanks ++ commas))

/-- What a text in front of closing marks shows behind its marks is looked for from the end. -/
theorem onlyMarks_iff {mark : Char} {text : List Char} (comma : mark ≠ ',')
    (shows : isBlank mark = false)
    : OnlyMarks mark text
      ↔ ∀ c ∈ trimLeft (text.reverse.dropWhile (· == ',')), c = mark := by
  constructor
  · rintro @⟨marks, blanks, commas, first, between, last⟩
    have stops : Stops isBlank marks.reverse := by
      intro c start
      rw [first c (List.mem_reverse.mp (List.mem_of_head? start))]
      exact shows
    have stops' : Stops (· == ',') (blanks.reverse ++ marks.reverse) := by
      intro c start
      rcases List.mem_append.mp (List.mem_of_head? start) with blank | marked
      · exact beq_false_of_ne (fun same => by
          have blank := between c (List.mem_reverse.mp blank)
          rw [same] at blank
          exact absurd blank (by decide))
      · rw [first c (List.mem_reverse.mp marked)]
        exact beq_false_of_ne comma
    have commas' : ∀ c ∈ commas.reverse, (c == ',') = true :=
      fun c member => beq_iff_eq.mpr (last c (List.mem_reverse.mp member))
    have blanks' : Blanks blanks.reverse := fun c member => between c (List.mem_reverse.mp member)
    rw [List.reverse_append, List.reverse_append, List.append_assoc,
      dropWhile_append_of_stops commas' stops', trimLeft_append blanks' stops]
    exact fun c member => first c (List.mem_reverse.mp member)
  · intro marked
    obtain ⟨blanks, split, blank⟩ := exists_leading_blanks (text.reverse.dropWhile (· == ','))
    have whole : text = (trimLeft (text.reverse.dropWhile (· == ','))).reverse
        ++ (blanks.reverse ++ (text.reverse.takeWhile (· == ',')).reverse) := by
      rw [← List.reverse_append, ← List.reverse_append, List.append_assoc, ← split,
        List.takeWhile_append_dropWhile, List.reverse_reverse]
    rw [whole]
    refine .intro (fun c member => marked c (List.mem_reverse.mp member))
      (fun c member => blank c (List.mem_reverse.mp member)) (fun c member => ?_)
    have comma' := List.mem_takeWhile_imp (List.mem_reverse.mp member)
    exact beq_iff_eq.mp comma'

instance (text : List Char) : Decidable (OnlyMarks '"' text) :=
  @decidable_of_iff _ _ (onlyMarks_iff (by decide) (by decide)).symm (List.decidableBAll _ _)

/-- Marks in front of a text that has none of its own start a tripled mark exactly if the text has
marks only. -/
theorem triple_prefix_append_iff {mark : Char} {text : List Char} (h : ¬ triple mark <:+: text)
    : triple mark <+: text ++ triple mark ↔ ∀ c ∈ text, c = mark := by
  rcases text with _ | ⟨c, _ | ⟨d, _ | ⟨e, text⟩⟩⟩
  · simp
  · simp [triple, eq_comm]
  · simp only [triple, List.cons_append, List.cons_prefix_cons, List.forall_mem_cons]
    simp [eq_comm]
  · have open' : ¬ (c = mark ∧ d = mark ∧ e = mark) := by
      rintro ⟨rfl, rfl, rfl⟩
      exact h (List.prefix_append (triple e) text).isInfix
    constructor
    · rintro ⟨rest, same⟩
      simp only [triple, List.cons_append, List.cons.injEq] at same
      exact absurd ⟨same.1.symm, same.2.1.symm, same.2.2.1.symm⟩ open'
    · exact fun marked => absurd ⟨marked c (by simp), marked d (by simp), marked e (by simp)⟩ open'

/-- The marks in front of a text close their string behind it exactly if the text has three bytes
and shows nothing but marks and commas. -/
theorem closesTriple_append_iff {mark : Char} {text : List Char} (comma : mark ≠ ',')
    (shows : isBlank mark = false) (size : mark.utf8Size = 1) (h : ¬ triple mark <:+: text)
    : closesTriple mark (triple mark ++ text) = true
      ↔ 3 ≤ byteCount text ∧ OnlyMarks mark text := by
  have bytes : byteCount (triple mark) = 3 := by simp [byteCount, triple, size]
  have stops : Stops (· == ',') (triple mark) := stops_cons.mpr (beq_false_of_ne comma)
  have stops' : Stops isBlank (triple mark) := stops_cons.mpr shows
  have behind : trimLeft ((triple mark ++ text).reverse.dropWhile (· == ','))
      = trimLeft (text.reverse.dropWhile (· == ',')) ++ triple mark := by
    have reversed : (triple mark).reverse = triple mark := rfl
    rw [List.reverse_append, reversed, dropWhile_append_stops stops, trimLeft, trimLeft,
      dropWhile_append_stops stops']
  have inside : ¬ triple mark <:+: trimLeft (text.reverse.dropWhile (· == ',')) := by
    intro within
    have reversed : triple mark <:+: text.reverse :=
      within.trans ((List.dropWhile_suffix _).trans (List.dropWhile_suffix _)).isInfix
    exact h (List.reverse_infix.mp reversed)
  rw [onlyMarks_iff comma shows, ← triple_prefix_append_iff inside, ← behind, closesTriple,
    Bool.and_eq_true, decide_eq_true_eq, byteCount_append, bytes]
  refine and_congr (by omega) ?_
  rw [Option.isSome_iff_exists]
  exact exists_congr (fun rest => after?_eq_some_iff.trans eq_comm)

/-- Closing marks close what stands between them and the opening ones, whatever blanks and commas
follow. -/
theorem closesTriple_closed {mark : Char} (quote : isQuote mark = true) (inner : List Char)
    {blanks commas : List Char} (between : Blanks blanks) (last : ∀ c ∈ commas, c = ',')
    : closesTriple mark (triple mark ++ (inner ++ (triple mark ++ (blanks ++ commas)))) = true := by
  have bytes : byteCount (triple mark) = 3 := by
    simp only [isQuote, Bool.or_eq_true, beq_iff_eq] at quote
    rcases quote with rfl | rfl <;> rfl
  have shows : isBlank mark = false := by
    refine Bool.eq_false_iff.mpr (fun blank => ?_)
    exact Bool.noConfusion ((plain_of_isBlank blank).2.1.symm.trans quote)
  have stops
      : Stops (· == ',') (blanks.reverse ++ (triple mark ++ (inner.reverse ++ triple mark))) := by
    refine Stops.append (fun c first => beq_false_of_ne ?_)
      (stops_cons.mpr (beq_false_of_ne (ne_of_kind quote rfl)))
    exact ne_of_kind (between c (List.mem_reverse.mp (List.mem_of_head? first))) rfl
  have stops' : Stops isBlank (triple mark ++ (inner.reverse ++ triple mark)) :=
    stops_cons.mpr shows
  have behind : (triple mark ++ (inner ++ (triple mark ++ (blanks ++ commas)))).reverse
      = commas.reverse ++ (blanks.reverse ++ (triple mark ++ (inner.reverse ++ triple mark))) := by
    simp [triple]
  rw [closesTriple, Bool.and_eq_true, decide_eq_true_eq, behind,
    dropWhile_append_of_stops (fun c member => beq_iff_eq.mpr (last c (List.mem_reverse.mp member)))
      stops,
    trimLeft_append (fun c member => between c (List.mem_reverse.mp member)) stops']
  simp only [byteCount_append, bytes]
  exact ⟨by omega, Option.isSome_iff_exists.mpr ⟨_, after?_eq_some_iff.mpr rfl⟩⟩

-----------------------------------------------------------------------------------------
-- Lengths of entries
-----------------------------------------------------------------------------------------

/-- The number of characters of lines, with one for the end of each. -/
def charCount (ls : List (List Char)) : Nat :=
  (layOut ls).length

theorem charCount_cons (line : List Char) (rest : List (List Char))
    : charCount (line :: rest) = line.length + 1 + charCount rest := by
  rw [charCount, layOut_cons, List.length_append, List.length_cons, charCount]
  omega

theorem length_joinWith_newline (line : List Char) (rest : List (List Char))
    : (joinWith ['\n'] (line :: rest)).length = line.length + charCount rest := by
  have behind : (rest.flatMap (fun other => ['\n'] ++ other)).length = charCount rest := by
    induction rest with
    | nil => rfl
    | cons other rest ih =>
        rw [List.flatMap_cons, List.length_append, ih, charCount_cons, List.singleton_append,
          List.length_cons]
  rw [joinWith_cons, List.length_append, behind]

/-- A section keeps no more characters than it has, by induction on its lines. -/
theorem charCount_keptLines_le (body : List (List Char))
    : charCount (keptLines body) ≤ charCount body := by
  induction body with
  | nil => exact Nat.le_refl _
  | cons line rest ih =>
      have trims : (trim line).length ≤ line.length :=
        (length_trimRight_le _).trans (List.length_dropWhile_le _ _)
      rw [keptLines, List.filter_cons]
      split
      · rw [List.map_cons, charCount_cons, charCount_cons]
        change (trim line).length + 1 + charCount (keptLines rest) ≤ _
        omega
      · rw [charCount_cons]
        change charCount (keptLines rest) ≤ _
        omega

/-- What follows a key is shorter than its line, by a colon at least. -/
theorem length_of_key? {line key text : List Char} (h : key? line = some (key, text))
    : text.length + 1 ≤ line.length := by
  have behind {rest : List Char} (colon : after? [':'] (trimLeft rest) = some text)
      : text.length + 1 ≤ rest.length := by
    have shorter : (trimLeft rest).length ≤ rest.length := List.length_dropWhile_le _ _
    rw [after?_eq_some_iff.mp colon] at shorter
    exact shorter
  unfold key? at h
  split at h
  · next name rest named =>
    obtain ⟨found, colon, same⟩ := Option.map_eq_some_iff.mp h
    obtain ⟨rfl, rfl⟩ := Prod.mk.inj same
    have shorter := behind colon
    rw [← append_of_name? named, List.length_append]
    omega
  · cases line with
    | nil => cases h
    | cons mark rest =>
        rw [quotedKey?] at h
        split at h
        · simp only [Option.bind_eq_bind, Option.bind_eq_some_iff] at h
          obtain ⟨⟨content, later⟩, read, found, colon, same⟩ := h
          obtain ⟨rfl, rfl⟩ := Prod.mk.inj (Option.some.inj same)
          have shorter : _ ≤ later.length := behind colon
          have quoted := Literal.length_of_unquote read
          rw [List.length_cons]
          omega
        · cases h

/-- A value has the characters of the lines that it takes, by the recursion over the lines. -/
theorem length_of_closeTriple_eq {mark : Char} {text value : List Char}
    {ls later : List (List Char)} (h : closeTriple mark text ls = some (value, later))
    : value.length + charCount later = text.length + charCount ls := by
  induction ls generalizing text with
  | nil =>
      rw [closeTriple] at h
      split at h
      · obtain ⟨rfl, rfl⟩ := Prod.mk.inj (Option.some.inj h)
        rfl
      · cases h
  | cons line rest ih =>
      rw [closeTriple] at h
      split at h
      · obtain ⟨rfl, rfl⟩ := Prod.mk.inj (Option.some.inj h)
        rfl
      · rw [ih h, charCount_cons, List.length_append, List.length_cons]
        omega

theorem length_of_valueLines_eq {text value : List Char} {ls later : List (List Char)}
    (h : valueLines text ls = some (value, later))
    : value.length + charCount later = text.length + charCount ls := by
  unfold valueLines at h
  split at h
  · exact length_of_closeTriple_eq h
  · obtain ⟨rfl, rfl⟩ := Prod.mk.inj (Option.some.inj h)
    rfl

theorem length_dropComma_le (text : List Char) : (dropComma text).length ≤ text.length := by
  unfold dropComma
  split
  · next front split =>
    rw [before?_eq_some_iff.mp split, List.length_append]
    exact (length_trimRight_le front).trans (Nat.le_add_right _ _)
  · exact Nat.le_refl _

/-- A comma that is dropped stands behind the opening marks. -/
theorem exists_dropComma_triple (text : List Char)
    : ∃ front, dropComma (triple '"' ++ text) = triple '"' ++ front
      ∧ front.length ≤ text.length := by
  rcases List.eq_nil_or_concat text with rfl | ⟨front, last, rfl⟩
  · exact ⟨[], rfl, Nat.le_refl _⟩
  · rw [List.concat_eq_append, ← List.append_assoc]
    by_cases comma : last = ','
    · refine ⟨trimRight front, ?_, (length_trimRight_le front).trans (by simp)⟩
      rw [comma, dropComma, before?_append]
      exact trimRight_append_cons ['"', '"'] (by decide) front
    · refine ⟨front ++ [last], ?_, Nat.le_refl _⟩
      have other : (triple '"' ++ front ++ [last]).getLast? ≠ some ',' := by
        rw [List.getLast?_concat]
        exact fun same => comma (Option.some.inj same)
      rw [dropComma, before?_eq_none other, List.append_assoc]

/-- A string is shorter than the lines of its section, by the marks, the colon and the end of a line
at least; by the recursion over the lines. -/
theorem length_of_mem_entriesOf {ls : List (List Char)} {entries : List (String × Literal)}
    {key content : String} (h : entriesOf ls = some entries)
    (member : (key, .quoted content) ∈ entries)
    : content.toList.length + 4 ≤ charCount ls := by
  revert member
  refine entriesOf_induction
    (motive := fun ls entries => (key, .quoted content) ∈ entries →
      content.toList.length + 4 ≤ charCount ls)
    (fun member => absurd member List.not_mem_nil) ?_ h
  intro line name text value rest later others keyed closed ih member
  have taken := length_of_valueLines_eq closed
  have trims : (trim text).length ≤ text.length :=
    (length_trimRight_le _).trans (List.length_dropWhile_le _ _)
  have behind := length_of_key? keyed
  rw [charCount_cons]
  rcases List.mem_cons.mp member with same | other
  · have string := Literal.length_of_decodeChars (Prod.mk.inj same).2.symm
    have uncut := length_dropComma_le value
    omega
  · have shorter := ih other
    omega

end QuizVariants.Section
