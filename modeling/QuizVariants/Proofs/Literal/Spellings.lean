import QuizVariants.Proofs.Literal.Groups
import QuizVariants.Proofs.Literal.Triples

/-! Texts that literals are read from.
A scalar other than a float is read from characters without quotation marks, or from a text between
marks, single or tripled. A list of such scalars is read from their texts, with commas between them.
-/

namespace QuizVariants.Literal

open QuizVariants.Text
open QuizVariants.Decimal

-----------------------------------------------------------------------------------------
-- Strings between marks
-----------------------------------------------------------------------------------------

/-- A text in single marks, which is read alike whatever follows. -/
theorem exists_inside_of_singleQuoted? {text : List Char} {literal : Literal}
    (h : singleQuoted? text = some literal)
    : ∃ mark inner content, isQuote mark = true ∧ text = mark :: (inner ++ [mark])
        ∧ Inside mark inner ∧ literal = .quoted (.ofList content)
        ∧ ∀ more, unquote mark (inner ++ mark :: more) = some (content, more) := by
  unfold singleQuoted? at h
  split at h
  · cases h
  · next mark rest =>
    split at h
    · next quote =>
      split at h
      · next content read =>
        obtain ⟨inner, rfl, inside, -, again⟩ := exists_inside_of_unquote read
        exact ⟨mark, inner, content, quote, rfl, inside, (Option.some.inj h).symm, again⟩
      · cases h
    · cases h

-----------------------------------------------------------------------------------------
-- Scalars
-----------------------------------------------------------------------------------------

/-- A text that a scalar is read from: characters without marks, or a string between marks, single
or tripled. -/
inductive ScalarText : List Char → Prop where
  | bare {text : List Char} (shows : text ≠ []) (all : ∀ c ∈ text, c = '+' ∨ isBare c = true)
      : ScalarText text
  | single {mark : Char} {inner : List Char} (quote : isQuote mark = true)
      (inside : Inside mark inner) : ScalarText (mark :: (inner ++ [mark]))
  | tripled {mark : Char} {inner : List Char} (quote : isQuote mark = true)
      (alone : ¬ triple mark <:+: inner) : ScalarText (triple mark ++ (inner ++ triple mark))

/-- A numeral without point and power of ten is a run of digits. -/
theorem isDigit_of_natural? {text : List Char} {numeral : Numeral} {n : Nat}
    (read : Numeral.read? text = some (numeral, [])) (natural : numeral.natural? = some n)
    : text ≠ [] ∧ ∀ c ∈ text, isDigit c = true := by
  have plain : numeral.fraction = none ∧ numeral.exponent = none := by
    unfold Numeral.natural? at natural
    split at natural
    · next fraction exponent => exact ⟨fraction, exponent⟩
    · cases natural
  have pointed {whole fraction rest : List Char}
      (read : withExponent whole (some fraction) rest = (numeral, []))
      : False := by
    have fraction : (withExponent whole (some fraction) rest).1.fraction = some fraction := by
      unfold withExponent
      split <;> rfl
    rw [read, plain.1] at fraction
    cases fraction
  simp only [Numeral.read?] at read
  split at read
  · split at read
    · split at read
      · cases read
      · exact (pointed (Option.some.inj read)).elim
    · cases read
  · next shows =>
    split at read
    · exact (pointed (Option.some.inj read)).elim
    · have read := Option.some.inj read
      unfold withExponent at read
      split at read
      · obtain ⟨rfl, -⟩ := Prod.mk.inj read
        cases plain.2
      · have whole : text.dropWhile isDigit = [] := (Prod.mk.inj read).2
        refine ⟨fun none => shows (by rw [none]; rfl), ?_⟩
        exact List.dropWhile_eq_nil_iff.mp whole

/-- An integer is read from digits, behind a sign or not. -/
theorem scalarText_of_readNumber? {text : List Char} {literal : Literal}
    (h : readNumber? text = some literal) (plain : literal.IsScalar)
    : ScalarText text := by
  unfold readNumber? at h
  split at h
  next negative size signed =>
  dsimp only at h
  split at h
  · next numeral read =>
    split at h
    · next n natural =>
      obtain ⟨shows, digits⟩ := isDigit_of_natural? read natural
      have all : ∀ c ∈ size, c = '+' ∨ isBare c = true :=
        fun c member => Or.inr (isBare_of_isDigit (digits c member))
      unfold sign at signed
      split at signed
      · obtain ⟨-, rfl⟩ := Prod.mk.inj signed
        exact .bare (List.cons_ne_nil _ _) (List.forall_mem_cons.mpr ⟨Or.inr rfl, all⟩)
      · obtain ⟨-, rfl⟩ := Prod.mk.inj signed
        exact .bare (List.cons_ne_nil _ _) (List.forall_mem_cons.mpr ⟨Or.inl rfl, all⟩)
      · obtain ⟨-, rfl⟩ := Prod.mk.inj signed
        exact .bare shows all
    · split at h
      · obtain rfl := Option.some.inj h
        exact plain.elim
      · cases h
  · cases h

theorem scalarText_of_readKeyword? {text : List Char} {literal : Literal}
    (h : readKeyword? text = some literal)
    : ScalarText text := by
  have keyword {name : String} (same : String.ofList text = name) (shows : name.toList ≠ [])
      (all : name.toList.all isBare = true)
      : ScalarText text := by
    obtain rfl : text = name.toList := by rw [← same, String.toList_ofList]
    exact .bare shows (fun c member => Or.inr (List.all_eq_true.mp all c member))
  unfold readKeyword? at h
  split at h
  case h_7 => cases h
  all_goals
    next same => exact keyword same (by decide) (by decide)

theorem scalarText_of_tripleQuoted? {mark : Char} {text inner : List Char} {literal : Literal}
    (quote : isQuote mark = true) (between : betweenTriples? mark text = some inner)
    (h : tripleQuoted? mark inner = some literal)
    : ScalarText text := by
  unfold tripleQuoted? at h
  split at h
  · cases h
  · next alone =>
    rw [betweenTriples?_eq_some_iff.mp between]
    exact .tripled quote (fun within => alone (occurs_eq_true_iff.mpr within))

theorem scalarText_of_readString? {text : List Char} {literal : Literal}
    (h : readString? text = some literal)
    : ScalarText text := by
  unfold readString? at h
  split at h
  · next between => exact scalarText_of_tripleQuoted? rfl between h
  · next between => exact scalarText_of_tripleQuoted? rfl between h
  · obtain ⟨mark, inner, content, quote, rfl, inside, -⟩ := exists_inside_of_singleQuoted? h
    exact .single quote inside

/-- A scalar other than a float is read from the text of a scalar, by cases on its kind. -/
theorem scalarText_of_scalar? {text : List Char} {literal : Literal}
    (h : scalar? text = some literal) (plain : literal.IsScalar)
    : ScalarText text := by
  simp only [scalar?, Option.orElse_eq_orElse, Option.orElse_eq_or, Option.or_eq_some_iff] at h
  rcases h with number | ⟨_, keyword | ⟨_, string⟩⟩
  · exact scalarText_of_readNumber? number plain
  · exact scalarText_of_readKeyword? keyword
  · exact scalarText_of_readString? string

theorem ScalarText.ne_nil {text : List Char} (h : ScalarText text) : text ≠ [] := by
  cases h with
  | bare shows _ => exact shows
  | single _ _ => exact List.cons_ne_nil _ _
  | tripled _ _ => exact List.cons_ne_nil _ _

/-- No scalar ends with a comma. -/
theorem ScalarText.getLast?_ne {text : List Char} (h : ScalarText text)
    : text.getLast? ≠ some ',' := by
  intro comma
  have marked {mark : Char} (quote : isQuote mark = true) (front : List Char)
      (same : text = front ++ [mark])
      : False := by
    rw [same, List.getLast?_concat] at comma
    exact ne_of_kind quote rfl (Option.some.inj comma)
  cases h with
  | bare _ all =>
      rcases all ',' (List.mem_of_getLast? comma) with plus | bare
      · exact absurd plus (by decide)
      · exact absurd bare (by decide)
  | @single mark inner quote _ => exact marked quote (mark :: inner) rfl
  | @tripled mark inner quote _ =>
      exact marked quote (triple mark ++ (inner ++ [mark, mark])) (by simp [triple])

/-- A scalar that starts with three marks is a string in triple quotes. -/
theorem ScalarText.exists_tripled {mark : Char} {rest : List Char}
    (h : ScalarText (triple mark ++ rest)) (quote : isQuote mark = true)
    : ∃ inner, rest = inner ++ triple mark ∧ ¬ triple mark <:+: inner := by
  generalize same : triple mark ++ rest = text at h
  cases h with
  | bare _ all =>
      have first := all mark (same ▸ List.mem_cons_self)
      simp only [isQuote, Bool.or_eq_true, beq_iff_eq] at quote
      rcases quote with rfl | rfl <;> exact absurd first (by decide)
  | @single other inner _ inside =>
      obtain ⟨rfl, behind⟩ := List.cons.inj same
      cases inner with
      | nil => cases (List.cons.inj behind).2
      | cons c inner =>
          obtain rfl := (List.cons.inj behind).1
          exact absurd rfl (inside.head?_ne quote)
  | @tripled other inner _ alone =>
      obtain rfl : mark = other := (List.cons.inj same).1
      exact ⟨inner, List.append_cancel_left same, alone⟩

-----------------------------------------------------------------------------------------
-- Plain literals
-----------------------------------------------------------------------------------------

/-- A text that a plain literal is read from: that of a scalar, or a list of such texts with blanks
around them, some of which may be blank altogether. -/
inductive PlainText : List Char → Prop where
  | scalar {text : List Char} (h : ScalarText text) : PlainText text
  | list {inner : List Char} {parts : List (List Char)} (divided : parts? inner = some parts)
      (texts : ∀ part ∈ parts, trim part = [] ∨ ScalarText (trim part))
      : PlainText ('[' :: (inner ++ [']']))

/-- An item that is a scalar is read from the text of one. -/
theorem scalarText_of_item {text : List Char} (h : (item text).IsScalar) : ScalarText text := by
  cases read : scalar? text with
  | some literal =>
      rw [item, read] at h
      exact scalarText_of_scalar? read h
  | none =>
      rw [item, read] at h
      exact h.elim

/-- A trimmed text that a plain literal is read from, by cases on what reads it. -/
theorem plainText_of_decodeChars {text : List Char} (trimmed : Trimmed text)
    (plain : (decodeChars text).IsPlain)
    : PlainText text := by
  rw [decodeChars, show trim text = text from trimmed, ofTrimmed] at plain
  cases read : scalar? text with
  | some literal =>
      rw [read] at plain
      rcases cases_of_scalar? read with scalar | ⟨value, rfl⟩
      · exact .scalar (scalarText_of_scalar? read scalar)
      · exact plain.elim
  | none =>
      cases list : readList? text with
      | some literal =>
          rw [read, list] at plain
          obtain ⟨inner, parts, ⟨rfl, divided, -⟩, rfl⟩ := readList?_eq_some_iff.mp list
          refine .list (parts?_eq_some_iff.mpr divided) (fun part member => ?_)
          by_cases blank : trim part = []
          · exact Or.inl blank
          · rcases isPlain_iff.mp plain with scalar | ⟨items, same, scalars⟩
            · exact scalar.elim
            · have shown : part ∈ shownParts parts :=
                List.mem_filter.mpr ⟨member, by simpa using blank⟩
              obtain rfl := Literal.list.inj same
              have scalar := scalars (ofPart part) (List.mem_map_of_mem shown)
              rw [← item_trim] at scalar
              exact Or.inr (scalarText_of_item scalar)
      | none =>
          rw [read, list] at plain
          exact plain.elim

theorem PlainText.ne_nil {text : List Char} (h : PlainText text) : text ≠ [] := by
  cases h with
  | scalar h => exact h.ne_nil
  | list _ _ => exact List.cons_ne_nil _ _

theorem PlainText.exists_tripled {mark : Char} {rest : List Char}
    (h : PlainText (triple mark ++ rest)) (quote : isQuote mark = true)
    : ∃ inner, rest = inner ++ triple mark ∧ ¬ triple mark <:+: inner := by
  generalize same : triple mark ++ rest = text at h
  cases h with
  | scalar h => exact (same ▸ h).exists_tripled quote
  | list _ _ =>
      obtain rfl := (List.cons.inj same).1
      exact absurd quote (by decide)

theorem PlainText.getLast?_ne {text : List Char} (h : PlainText text)
    : text.getLast? ≠ some ',' := by
  cases h with
  | scalar h => exact h.getLast?_ne
  | @list inner _ _ _ =>
      rw [← List.cons_append, List.getLast?_concat]
      decide

end QuizVariants.Literal
