import QuizVariants.Proofs.Literal.Spellings
import QuizVariants.Proofs.Section.Closing

/-! Literals on the lines of a section.
The scanner of comments passes over a literal and goes on behind it outside of strings. It closes a
string in triple quotes at the first three marks in a row, the reader of literals at the last three:
where a single mark is left over it opens a string of its own, up to the end of the line.
-/

namespace QuizVariants.Section

open QuizVariants.Text
open QuizVariants.Literal

-----------------------------------------------------------------------------------------
-- Passing
-----------------------------------------------------------------------------------------

/-- A text that the scanner passes: what follows it, unless it is a mark, is scanned outside of
strings. -/
def Passed (text : List Char) : Prop :=
  ∀ rest, Stops isQuote rest → scanLine none (text ++ rest) = keepText text (scanLine none rest)

theorem keepText_append (first second : List Char) (line : List Char × Option OpenString)
    : keepText (first ++ second) line = keepText first (keepText second line) := by
  simp [keepText]

theorem Passed.append {first second : List Char} (h : Passed first) (next : Passed second)
    (apart : Stops isQuote second)
    : Passed (first ++ second) := by
  intro rest stops
  rw [List.append_assoc, h _ (apart.append stops), next rest stops, keepText_append]

/-- A mark may follow characters that are no marks. -/
theorem Passed.behind {first second : List Char} (h : Passed second)
    (plain : ∀ c ∈ first, c ≠ '#' ∧ isQuote c = false)
    : Passed (first ++ second) := by
  intro rest stops
  rw [List.append_assoc, scanLine_append_of_plain plain, h rest stops, keepText_append]

theorem passed_of_plain {text : List Char} (plain : ∀ c ∈ text, c ≠ '#' ∧ isQuote c = false)
    : Passed text :=
  fun rest _ => scanLine_append_of_plain plain rest

theorem plain_of_blanks {text : List Char} (blank : Blanks text)
    : ∀ c ∈ text, c ≠ '#' ∧ isQuote c = false := by
  intro c member
  exact ⟨ne_of_kind (blank c member) rfl, (plain_of_isBlank (blank c member)).2.1⟩

-----------------------------------------------------------------------------------------
-- Strings
-----------------------------------------------------------------------------------------

theorem passed_single {mark : Char} {inner : List Char} (quote : isQuote mark = true)
    (inside : Inside mark inner)
    : Passed (mark :: (inner ++ [mark])) := by
  intro rest stops
  have apart : rest.head? ≠ some mark := by
    intro first
    exact Bool.noConfusion ((stops mark first).symm.trans quote)
  rw [List.cons_append, List.append_assoc, List.singleton_append]
  exact scanLine_single quote inside apart

/-- The two marks are those that open a string. -/
theorem mem_marks_iff {mark : Char} : mark ∈ ['"', '\''] ↔ isQuote mark = true := by
  simp [isQuote]

/-- A string in triple quotes whose text ends in one mark, but not in two. -/
def EndsEarly (text : List Char) : Prop :=
  ∃ mark ∈ ['"', '\''], ∃ inner ∈ betweenTriples? mark text,
    inner.getLast? = some mark ∧ inner.dropLast.getLast? ≠ some mark

instance (text : List Char) : Decidable (EndsEarly text) :=
  List.decidableBEx _ _

/-- Three marks close a string if there are none in front of them. -/
theorem scanLine_tripled {mark : Char} {inner : List Char} (quote : isQuote mark = true)
    (alone : ¬ triple mark <:+: inner) (ending : inner.getLast? ≠ some mark) (rest : List Char)
    : scanLine none (triple mark ++ (inner ++ (triple mark ++ rest)))
        = keepText (triple mark ++ (inner ++ triple mark)) (scanLine none rest) := by
  rw [scanLine_triple quote, scanLine_closing alone ending, ← keepText_append]

theorem endsEarly_triple_iff {mark : Char} (quote : isQuote mark = true) {inner : List Char}
    : EndsEarly (triple mark ++ (inner ++ triple mark))
      ↔ inner.getLast? = some mark ∧ inner.dropLast.getLast? ≠ some mark := by
  constructor
  · rintro ⟨other, -, found, between, last⟩
    have same := betweenTriples?_eq_some_iff.mp between
    obtain rfl : mark = other := (List.cons.inj same).1
    have split := List.append_cancel_left same
    rwa [(List.append_left_inj _).mp split]
  · intro last
    exact ⟨mark, mem_marks_iff.mpr quote, inner, betweenTriples?_eq_some_iff.mpr rfl, last⟩

theorem exists_append_pair {mark : Char} {inner : List Char} (last : inner.getLast? = some mark)
    (before : inner.dropLast.getLast? = some mark)
    : ∃ front, inner = front ++ [mark, mark] := by
  refine ⟨inner.dropLast.dropLast, ?_⟩
  calc inner = inner.dropLast ++ [mark] := (List.dropLast_append_getLast? mark last).symm
    _ = inner.dropLast.dropLast ++ [mark] ++ [mark] := by
        rw [List.dropLast_append_getLast? mark before]
    _ = inner.dropLast.dropLast ++ [mark, mark] := List.append_assoc _ _ _

/-- Where no three marks stand in a row, there is none in front of two. -/
theorem getLast?_ne_of_alone {mark : Char} {front : List Char}
    (alone : ¬ triple mark <:+: front ++ [mark, mark])
    : front.getLast? ≠ some mark := by
  intro third
  refine alone ⟨front.dropLast, [], ?_⟩
  rw [← List.dropLast_append_getLast? mark third]
  simp [triple]

/-- The scanner passes a string in triple quotes unless it ends early: two marks in front of the
closing ones are taken for an empty string behind them. -/
theorem passed_tripled {mark : Char} {inner : List Char} (quote : isQuote mark = true)
    (alone : ¬ triple mark <:+: inner) (late : ¬ EndsEarly (triple mark ++ (inner ++ triple mark)))
    : Passed (triple mark ++ (inner ++ triple mark)) := by
  intro rest stops
  by_cases last : inner.getLast? = some mark
  · have before : inner.dropLast.getLast? = some mark := by
      by_contra other
      exact late ((endsEarly_triple_iff quote).mpr ⟨last, other⟩)
    obtain ⟨front, rfl⟩ := exists_append_pair last before
    have shorter : ¬ triple mark <:+: front :=
      fun within => alone (within.trans (List.prefix_append _ _).isInfix)
    have two : Passed [mark, mark] := passed_single quote .nil
    have written : triple mark ++ (front ++ [mark, mark] ++ triple mark) ++ rest
        = triple mark ++ (front ++ (triple mark ++ ([mark, mark] ++ rest))) := by
      simp [triple]
    rw [written, scanLine_tripled quote shorter (getLast?_ne_of_alone alone), two rest stops,
      ← keepText_append]
    congr 1
    simp [triple]
  · have written : triple mark ++ (inner ++ triple mark) ++ rest
        = triple mark ++ (inner ++ (triple mark ++ rest)) := by
      simp
    rw [written, scanLine_tripled quote alone last]

theorem passed_of_scalarText {text : List Char} (h : ScalarText text) (late : ¬ EndsEarly text)
    : Passed text := by
  cases h with
  | bare _ all =>
      refine passed_of_plain (fun c member => ?_)
      rcases all c member with rfl | bare
      · exact ⟨by decide, rfl⟩
      · exact plain_of_isBare bare
  | single quote inside => exact passed_single quote inside
  | tripled quote alone => exact passed_tripled quote alone late

-----------------------------------------------------------------------------------------
-- Behind a string that ends early
-----------------------------------------------------------------------------------------

/-- A text without number signs in which no three marks stand in a row. -/
def Harmless (text : List Char) : Prop :=
  '#' ∉ text ∧ ∀ mark ∈ ['"', '\''], ¬ triple mark <:+: text

instance (text : List Char) : Decidable (Harmless text) :=
  inferInstanceAs (Decidable (_ ∧ _))

/-- Three marks in a row do not lie across a place behind which there is no mark. -/
theorem Harmless.append {first second : List Char} (h : Harmless first) (next : Harmless second)
    (apart : Stops isQuote second)
    : Harmless (first ++ second) := by
  refine ⟨fun sign => (List.mem_append.mp sign).elim h.1 next.1, fun mark listed within => ?_⟩
  have quote := mem_marks_iff.mp listed
  rcases List.infix_append_iff_ne_nil.mp within with inside | inside | across
  · exact h.2 mark listed inside
  · exact next.2 mark listed inside
  · obtain ⟨front, behind, _, shows, split, _, starts⟩ := across
    obtain ⟨c, more, rfl⟩ := List.exists_cons_of_ne_nil shows
    obtain ⟨rest, rfl⟩ := starts
    have member : c ∈ triple mark := by simp [split]
    obtain rfl : c = mark := by simpa [triple] using member
    exact Bool.noConfusion ((apart c rfl).symm.trans quote)

/-- Characters that are no marks do no harm in front of a text, by induction on them. -/
theorem Harmless.behind {first second : List Char} (h : Harmless second)
    (plain : ∀ c ∈ first, c ≠ '#' ∧ isQuote c = false)
    : Harmless (first ++ second) := by
  induction first with
  | nil => exact h
  | cons c first ih =>
      obtain ⟨⟨other, apart⟩, others⟩ := List.forall_mem_cons.mp plain
      have rest := ih others
      refine ⟨?_, fun mark listed within => ?_⟩
      · intro sign
        exact (List.mem_cons.mp sign).elim (fun same => other same.symm) rest.1
      · have quote := mem_marks_iff.mp listed
        rcases List.infix_cons_iff.mp within with starts | inside
        · obtain rfl := (List.cons_prefix_cons.mp starts).1
          exact Bool.noConfusion (apart.symm.trans quote)
        · exact rest.2 mark listed inside

theorem harmless_of_plain {text : List Char} (plain : ∀ c ∈ text, c ≠ '#' ∧ isQuote c = false)
    : Harmless text := by
  have empty : Harmless [] := ⟨List.not_mem_nil, by simp [triple]⟩
  simpa using empty.behind plain

theorem Harmless.tail {c : Char} {text : List Char} (h : Harmless (c :: text)) : Harmless text :=
  ⟨fun sign => h.1 (List.mem_cons_of_mem c sign),
    fun mark listed within => h.2 mark listed (within.trans (List.suffix_cons c text).isInfix)⟩

/-- A harmless text is kept up to the end of its line and opens no string over several lines, be it
outside of strings or in one between single marks; by induction on the scanner. -/
theorem scanLine_harmless {text : List Char} (h : Harmless text) {state : Option OpenString}
    (single : ∀ string ∈ state, string.triple = false)
    : scanLine state text = (text, none) := by
  have outside : ∀ string ∈ (none : Option OpenString), string.triple = false := nofun
  have inside (mark : Char)
      : ∀ string ∈ some (OpenString.mk mark false), string.triple = false := by
    intro string same
    obtain rfl := Option.some.inj same
    rfl
  fun_induction scanLine state text with
  | case1 state =>
      cases state with
      | none => rfl
      | some string =>
          obtain ⟨mark, tripled⟩ := string
          obtain rfl : tripled = false := single _ rfl
          rfl
  -- Strings over several lines are not open here, and do not begin.
  | case2 | case3 | case4 => exact Bool.noConfusion (single _ rfl)
  | case9 c d e rest _ quote tripled _ =>
      obtain ⟨second, third⟩ := tripled
      have listed := mem_marks_iff.mpr quote
      have starts : triple c <+: c :: d :: e :: rest := by
        rw [second, third]
        exact List.prefix_append (triple c) rest
      exact absurd starts.isInfix (h.2 c listed)
  | case8 | case12 => exact absurd List.mem_cons_self h.1
  | case5 mark c rest ih => rw [ih h.tail.tail single]; rfl
  | case6 c rest _ ih => rw [ih h.tail outside]; rfl
  | case7 mark c rest _ _ ih => rw [ih h.tail single]; rfl
  | case10 c d e rest _ _ _ ih => rw [ih h.tail (inside c)]; rfl
  | case11 c d e rest _ _ ih => rw [ih h.tail outside]; rfl
  | case13 c rest _ _ _ ih => rw [ih h.tail (inside c)]; rfl
  | case14 c rest _ _ _ ih => rw [ih h.tail outside]; rfl

/-- Behind a string that ends early a harmless rest of the line is kept: the mark that is left over
opens a string between single marks. -/
theorem scanLine_of_endsEarly {text rest : List Char} (h : ScalarText text)
    (early : EndsEarly text) (harmless : Harmless rest) (stops : Stops isQuote rest)
    : scanLine none (text ++ rest) = (text ++ rest, none) := by
  obtain ⟨mark, listed, inner, between, last, before⟩ := early
  have quote := mem_marks_iff.mp listed
  obtain rfl := betweenTriples?_eq_some_iff.mp between
  obtain ⟨front, rfl⟩ : ∃ front, inner = front ++ [mark] :=
    ⟨inner.dropLast, (List.dropLast_append_getLast? mark last).symm⟩
  rw [List.dropLast_concat] at before
  obtain ⟨inner, split, alone⟩ := h.exists_tripled quote
  obtain rfl := (List.append_left_inj _).mp split
  have alone' : ¬ triple mark <:+: front :=
    fun within => alone (within.trans (List.prefix_append _ _).isInfix)
  have single : ∀ more, rest ≠ mark :: mark :: more := by
    rintro more rfl
    exact Bool.noConfusion ((stops mark rfl).symm.trans quote)
  have unclosed : scanLine (some ⟨mark, false⟩) rest = (rest, none) := by
    refine scanLine_harmless harmless (fun string same => ?_)
    obtain rfl := Option.some.inj same
    rfl
  have written : triple mark ++ (front ++ [mark] ++ triple mark) ++ rest
      = triple mark ++ (front ++ (triple mark ++ (mark :: rest))) := by
    simp [triple]
  rw [written, scanLine_tripled quote alone' before, scanLine_open quote single, unclosed]
  simp [keepText, keep]

-----------------------------------------------------------------------------------------
-- Lists
-----------------------------------------------------------------------------------------

/-- The texts of the scalars in a value: those of a list's parts, or the value itself. -/
def scalarsOf (value : List Char) : List (List Char) :=
  match ((after? ['['] value).bind (before? [']'])).bind parts? with
  | some parts => parts.map trim
  | none => [value]

theorem scalarsOf_list {inner : List Char} {parts : List (List Char)}
    (divided : parts? inner = some parts)
    : scalarsOf ('[' :: (inner ++ [']'])) = parts.map trim := by
  rw [scalarsOf, after?_singleton, Option.bind_some, before?_append, Option.bind_some, divided]

theorem ScalarText.scalarsOf_eq {text : List Char} (h : ScalarText text)
    : scalarsOf text = [text] := by
  have unopened : after? ['['] text = none := by
    refine after?_eq_none (fun first => ?_) []
    cases h with
    | bare _ all =>
        rcases all '[' (List.mem_of_head? first) with plus | bare
        · exact absurd plus (by decide)
        · exact absurd bare (by decide)
    | single quote _ => exact ne_of_kind quote rfl (Option.some.inj first)
    | tripled quote _ => exact ne_of_kind quote rfl (Option.some.inj first)
  rw [scalarsOf, unopened]
  rfl

theorem stops_of_blanks {text : List Char} (blank : Blanks text) : Stops isQuote text :=
  fun c first => (plain_of_blanks blank c (List.mem_of_head? first)).2

/-- Blanks around a text are passed with it. -/
theorem Passed.of_trim {text : List Char} (h : Passed (trim text)) : Passed text := by
  obtain ⟨before, behind, split, blank, blank'⟩ := exists_blanks_around text
  have passed := passed_of_plain (plain_of_blanks blank')
  rw [split]
  exact (h.append passed (stops_of_blanks blank')).behind (plain_of_blanks blank)

/-- The scanner passes a part that is blank, or a scalar that does not end early. -/
theorem passed_of_part {part : List Char} (h : trim part = [] ∨ ScalarText (trim part))
    (late : ¬ EndsEarly (trim part))
    : Passed part := by
  refine Passed.of_trim ?_
  rcases h with blank | text
  · rw [blank]
    exact passed_of_plain (List.forall_mem_nil _)
  · exact passed_of_scalarText text late

/-- Texts are passed with the commas between them, by induction on the texts. -/
theorem passed_joinWith {parts : List (List Char)} (h : ∀ part ∈ parts, Passed part)
    : Passed (joinWith [','] parts) := by
  have comma : ∀ c ∈ [','], c ≠ '#' ∧ isQuote c = false :=
    List.forall_mem_singleton.mpr ⟨by decide, rfl⟩
  induction parts with
  | nil => exact passed_of_plain (List.forall_mem_nil _)
  | cons part parts ih =>
      obtain ⟨first, others⟩ := List.forall_mem_cons.mp h
      cases parts with
      | nil => exact first
      | cons next parts =>
          rw [joinWith_cons_cons]
          exact first.append ((ih others).behind comma) (stops_cons.mpr rfl)

/-- The scanner passes a plain literal none of whose strings ends early. -/
theorem passed_of_plainText {value : List Char} (h : PlainText value)
    (late : ∀ text ∈ scalarsOf value, ¬ EndsEarly text)
    : Passed value := by
  cases h with
  | scalar h =>
      rw [ScalarText.scalarsOf_eq h] at late
      exact passed_of_scalarText h (late value List.mem_cons_self)
  | @list inner parts divided texts =>
      rw [scalarsOf_list divided] at late
      have passed : ∀ part ∈ parts, Passed part := by
        intro part member
        exact passed_of_part (texts part member) (late _ (List.mem_map_of_mem member))
      have inside : Passed inner := by
        rw [← (parts?_eq_some_iff.mp divided).joined]
        exact passed_joinWith passed
      have closing : Passed [']'] :=
        passed_of_plain (List.forall_mem_singleton.mpr ⟨by decide, rfl⟩)
      have opening : ∀ c ∈ ['['], c ≠ '#' ∧ isQuote c = false :=
        List.forall_mem_singleton.mpr ⟨by decide, rfl⟩
      exact (inside.append closing (stops_cons.mpr rfl)).behind opening

/-- Parts behind commas are as harmless as their texts, in front of what is; by induction on the
parts. -/
theorem harmless_behind {parts : List (List Char)} {rest : List Char}
    (h : ∀ part ∈ parts, Harmless (trim part)) (harmless : Harmless rest)
    (stops : Stops isQuote rest)
    : Harmless (parts.flatMap (fun part => [','] ++ part) ++ rest)
      ∧ Stops isQuote (parts.flatMap (fun part => [','] ++ part) ++ rest) := by
  induction parts with
  | nil => exact ⟨harmless, stops⟩
  | cons part parts ih =>
      obtain ⟨first, others⟩ := List.forall_mem_cons.mp h
      obtain ⟨later, apart⟩ := ih others
      obtain ⟨before, behind, split, blank, blank'⟩ := exists_blanks_around part
      have written : (part :: parts).flatMap (fun part => [','] ++ part) ++ rest
          = ',' :: before ++ (trim part
            ++ (behind ++ (parts.flatMap (fun part => [','] ++ part) ++ rest))) := by
        rw [List.flatMap_cons]
        conv_lhs => rw [split]
        simp
      have plain : ∀ c ∈ ',' :: before, c ≠ '#' ∧ isQuote c = false :=
        List.forall_mem_cons.mpr ⟨⟨by decide, rfl⟩, plain_of_blanks blank⟩
      rw [written]
      refine ⟨Harmless.behind (first.append ?_ ?_) plain, stops_cons.mpr rfl⟩
      · exact later.behind (plain_of_blanks blank')
      · exact (stops_of_blanks blank').append apart

/-- Parts one of which ends early are kept with the rest of their line if that and all parts behind
it are harmless; by induction on the parts. -/
theorem scanLine_of_part {parts : List (List Char)} {rest : List Char}
    (texts : ∀ part ∈ parts, trim part = [] ∨ ScalarText (trim part))
    (clear : (parts.map trim).Pairwise (fun text later => EndsEarly text → Harmless later))
    (early : ∃ text ∈ parts.map trim, EndsEarly text) (harmless : Harmless rest)
    (stops : Stops isQuote rest)
    : scanLine none (joinWith [','] parts ++ rest) = (joinWith [','] parts ++ rest, none) := by
  induction parts with
  | nil =>
      obtain ⟨text, member, _⟩ := early
      exact absurd member List.not_mem_nil
  | cons part parts ih =>
      obtain ⟨text, others⟩ := List.forall_mem_cons.mp texts
      obtain ⟨behind, clear⟩ := List.pairwise_cons.mp clear
      by_cases ends : EndsEarly (trim part)
      · have scalar : ScalarText (trim part) := by
          refine text.resolve_left (fun blank => ?_)
          rw [blank] at ends
          exact absurd ends (by decide)
        have calm : ∀ other ∈ parts, Harmless (trim other) :=
          fun other member => behind _ (List.mem_map_of_mem member) ends
        obtain ⟨later, apart⟩ := harmless_behind calm harmless stops
        obtain ⟨before, after, split, blank, blank'⟩ := exists_blanks_around part
        have written : joinWith [','] (part :: parts) ++ rest
            = before ++ (trim part
              ++ (after ++ (parts.flatMap (fun part => [','] ++ part) ++ rest))) := by
          rw [joinWith_cons]
          conv_lhs => rw [split]
          simp
        rw [written, scanLine_append_of_plain (plain_of_blanks blank),
          scanLine_of_endsEarly scalar ends (later.behind (plain_of_blanks blank'))
            ((stops_of_blanks blank').append apart)]
        rfl
      · have remaining : ∃ text ∈ parts.map trim, EndsEarly text := by
          obtain ⟨text, member, found⟩ := early
          rcases List.mem_cons.mp member with rfl | member
          · exact absurd found ends
          · exact ⟨text, member, found⟩
        cases parts with
        | nil =>
            obtain ⟨text, member, _⟩ := remaining
            exact absurd member List.not_mem_nil
        | cons next parts =>
            have comma : ∀ c ∈ [','], c ≠ '#' ∧ isQuote c = false :=
              List.forall_mem_singleton.mpr ⟨by decide, rfl⟩
            have apart : Stops isQuote ([','] ++ (joinWith [','] (next :: parts) ++ rest)) :=
              stops_cons.mpr rfl
            rw [joinWith_cons_cons, List.append_assoc, List.append_assoc,
              passed_of_part text ends _ apart, scanLine_append_of_plain comma,
              ih others clear remaining]
            rfl

/-- A value with a string that ends early is kept with the rest of its line if what stands behind
the string is harmless. -/
theorem scanLine_of_early {value rest : List Char} (h : PlainText value)
    (clear : (scalarsOf value).Pairwise (fun text later => EndsEarly text → Harmless later))
    (early : ∃ text ∈ scalarsOf value, EndsEarly text) (harmless : Harmless rest)
    (stops : Stops isQuote rest)
    : scanLine none (value ++ rest) = (value ++ rest, none) := by
  cases h with
  | scalar h =>
      rw [ScalarText.scalarsOf_eq h] at early
      obtain ⟨text, member, ends⟩ := early
      obtain rfl := List.mem_singleton.mp member
      exact scanLine_of_endsEarly h ends harmless stops
  | @list inner parts divided texts =>
      rw [scalarsOf_list divided] at clear early
      have bracket : ∀ c ∈ [']'], c ≠ '#' ∧ isQuote c = false :=
        List.forall_mem_singleton.mpr ⟨by decide, rfl⟩
      have inside := scanLine_of_part texts clear early (harmless.behind bracket)
        (stops_cons.mpr rfl)
      have written : '[' :: (inner ++ [']']) ++ rest
          = '[' :: (joinWith [','] parts ++ ([']'] ++ rest)) := by
        rw [(parts?_eq_some_iff.mp divided).joined]
        simp
      rw [written, scanLine_plain (by decide) rfl, inside]
      rfl

-----------------------------------------------------------------------------------------
-- Values
-----------------------------------------------------------------------------------------

/-- What may stand between a value and the end of its line: nothing, or a comma behind blanks. -/
inductive Ending : List Char → Prop where
  | nil : Ending []
  | comma {blanks : List Char} (blank : Blanks blanks) : Ending (blanks ++ [','])

theorem Ending.blank_or_comma {ending : List Char} (h : Ending ending)
    : ∀ c ∈ ending, isBlank c = true ∨ c = ',' := by
  cases h with
  | nil => exact List.forall_mem_nil _
  | comma blank =>
      exact List.forall_mem_append.mpr ⟨fun c member => Or.inl (blank c member),
        List.forall_mem_singleton.mpr (Or.inr rfl)⟩

/-- An ending has no mark and no number sign. -/
theorem Ending.plain {ending : List Char} (h : Ending ending)
    : ∀ c ∈ ending, c ≠ '#' ∧ isQuote c = false := by
  intro c member
  rcases h.blank_or_comma c member with blank | rfl
  · exact plain_of_blanks (List.forall_mem_singleton.mpr blank) c (List.mem_singleton_self c)
  · exact ⟨by decide, rfl⟩

/-- A value with its ending shows at both of its ends. -/
theorem trimmed_append {value ending : List Char} (trimmed : Trimmed value) (shows : value ≠ [])
    (h : Ending ending)
    : Trimmed (value ++ ending) := by
  cases h with
  | nil => rwa [List.append_nil]
  | @comma blanks _ =>
      refine trimmed_iff.mpr ⟨fun c first => ?_, fun c last => ?_⟩
      · rw [List.head?_append_of_ne_nil _ shows] at first
        exact (trimmed_iff.mp trimmed).1 c first
      · rw [← List.append_assoc, List.getLast?_concat] at last
        obtain rfl := Option.some.inj last
        rfl

/-- A value is complete on its line, whatever lines follow. -/
theorem valueLines_of_plainText {value ending : List Char} (h : PlainText value)
    (ends : Ending ending) (ls : List (List Char))
    : valueLines (value ++ ending) ls = some (value ++ ending, ls) := by
  unfold valueLines
  split
  · next mark found =>
    have quote := mem_marks_iff.mp (List.mem_of_find?_eq_some found)
    have opened : (after? (triple mark) (value ++ ending)).isSome = true :=
      List.find?_some (p := fun mark => (after? (triple mark) (value ++ ending)).isSome) found
    obtain ⟨rest, opens⟩ := Option.isSome_iff_exists.mp opened
    have written := after?_eq_some_iff.mp opens
    -- The ending has no marks, so all of the opening ones belong to the value.
    obtain ⟨behind, rfl⟩ : ∃ behind, value = triple mark ++ behind := by
      rcases List.append_eq_append_iff.mp written with ⟨more, marks, split⟩ | ⟨behind, split, _⟩
      · cases more with
        | nil => exact ⟨[], by rw [marks, List.append_nil, List.append_nil]⟩
        | cons c more =>
            have marked : c ∈ triple mark := by simp [marks]
            obtain rfl : c = mark := by simpa [triple] using marked
            have plain := (ends.plain c (by simp [split])).2
            exact absurd quote (Bool.eq_false_iff.mp plain)
      · exact ⟨behind, split⟩
    obtain ⟨inner, rfl, -⟩ := h.exists_tripled quote
    have closed : closesTriple mark (triple mark ++ (inner ++ triple mark) ++ ending) = true := by
      have none : ∀ c ∈ ([] : List Char), c = ',' := List.forall_mem_nil _
      cases ends with
      | nil => simpa using closesTriple_closed quote inner (List.forall_mem_nil _) none
      | comma blank =>
          simpa using closesTriple_closed quote inner blank (List.forall_mem_singleton.mpr rfl)
    cases ls <;> simp only [closeTriple, if_pos closed]
  · rfl

/-- The comma behind a value is dropped with the blanks in front of it. -/
theorem dropComma_append {value ending : List Char} (h : PlainText value) (trimmed : Trimmed value)
    (ends : Ending ending)
    : dropComma (value ++ ending) = value := by
  cases ends with
  | nil => rw [List.append_nil, dropComma, before?_eq_none h.getLast?_ne]
  | @comma blanks blank =>
      rw [← List.append_assoc, dropComma, before?_append]
      exact (trimRight_append blank value).trans trimmed.trimRight_eq

end QuizVariants.Section
