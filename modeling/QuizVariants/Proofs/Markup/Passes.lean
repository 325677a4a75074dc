import QuizVariants.Proofs.Markup.Cleanup
import QuizVariants.Proofs.Template.Scan
import QuizVariants.Proofs.Text.Trimming

/-! Passes of the cleanup over text with placeholders.
A pass replaces the markup of one kind from left to right. What it does to the search for
placeholders is settled once for all rules: between the matches both run side by side, so that a
rule is described by what one match does.
-/

namespace QuizVariants.Markup

open QuizVariants.Template
open QuizVariants.Text

/-- A rule of the cleanup: what it puts in the place of a match, and what follows the match. -/
abbrev Rule : Type :=
  List Char → Option (List Char × List Char)

/-- What becomes of the search for placeholders when `new` is put in the place of `old`. The search
for untagged placeholders finds the same ones, unless it was broken before or is broken now; a
placeholder that nothing closes stays unclosed, also with more braces open in front of it. -/
structure Carries (breaks : Prop) (old new : List Char) : Prop where
  scan : ∀ {broken found}, (∀ source ∈ found, Untagged source) → Scan broken found old →
    ∃ broken', Scan broken' found new ∧ (broken' = true ↔ broken = true ∨ breaks)
  depth : ∀ {less more}, less ≤ more → (depth? less old).isSome → (depth? more new).isSome
  head : new.head? = some '{' → old.head? = some '{'
  tagged : ∀ {rest}, old = '<' :: rest → ∃ more, new = '<' :: more

/-- A rule that breaks no placeholders but those that `breaks` tells: it matches only where markup
starts, and replacing one match carries the search over whatever the rest becomes. -/
structure Rule.Carries (rule : Rule) (breaks : List Char → Prop) : Prop where
  quiet : ∀ {c}, c ≠ '\\' → c ≠ '<' → ∀ rest, rule (c :: rest) = none
  shrinks : ∀ {text output after}, rule text = some (output, after) → after.length < text.length
  matched : ∀ {text output after new}, rule text = some (output, after) →
    Markup.Carries (breaks after) after new → Markup.Carries (breaks text) text (output ++ new)
  nil : ¬ breaks []
  skip : ∀ {c rest}, after? opening (c :: rest) = none → rule (c :: rest) = none →
    (breaks (c :: rest) ↔ breaks rest)
  slot : ∀ {source rest}, depth? 0 source = some 0 →
    (breaks (opening ++ (source ++ '}' :: rest)) ↔ breaks rest)
  unclosed : ∀ {body}, (depth? 0 body).isSome → ¬ breaks (opening ++ body)

/-- A rule goes on behind text in which no markup starts. -/
theorem Rule.Carries.replaceAll_append {rule : Rule} {breaks : List Char → Prop}
    (h : rule.Carries breaks) {text : List Char} (untagged : Untagged text) (behind : List Char)
    : replaceAll rule (text ++ behind) = text ++ replaceAll rule behind := by
  refine replaceAll_append_of_unmatched (fun c member rest => h.quiet ?_ ?_ rest) behind
  · exact fun same => untagged.1 (same ▸ member)
  · exact fun same => untagged.2 (same ▸ member)

theorem untagged_opening : Untagged opening := by
  unfold Untagged
  decide

/-- A text in front of both keeps a placeholder unclosed. -/
theorem depth?_append_mono {old new : List Char}
    (h : ∀ {less more}, less ≤ more → (depth? less old).isSome → (depth? more new).isSome)
    {less more : Nat} (le : less ≤ more) {front : List Char}
    (still : (depth? less (front ++ old)).isSome)
    : (depth? more (front ++ new)).isSome := by
  rw [depth?_append] at still ⊢
  cases left : depth? less front with
  | none => rw [left] at still; exact nomatch still
  | some depth =>
      obtain ⟨depth', left', deeper⟩ := depth?_mono le left
      rw [left] at still
      rw [left']
      exact h deeper still

/-- What a pass leaves of a text on which the rule does not match carries the search, given that
what it leaves of shorter texts does; by cases on the search. -/
theorem Rule.Carries.scan_unmatched {rule : Rule} {breaks : List Char → Prop}
    (h : rule.Carries breaks) {c : Char} {rest : List Char} (unmatched : rule (c :: rest) = none)
    (shorter : ∀ text, text.length ≤ rest.length →
      Markup.Carries (breaks text) text (replaceAll rule text))
    {broken : Bool} {found : List (List Char)} (untagged : ∀ source ∈ found, Untagged source)
    (scan : Scan broken found (c :: rest))
    : ∃ broken', Scan broken' found (replaceAll rule (c :: rest))
        ∧ (broken' = true ↔ broken = true ∨ breaks (c :: rest)) := by
  generalize same : c :: rest = text at scan
  have lengths := congrArg List.length same
  cases scan with
  | done => exact nomatch same
  | skip apart more =>
      obtain ⟨rfl, rfl⟩ := List.cons.inj same
      have later := shorter rest (Nat.le_refl _)
      obtain ⟨broken', scan, whether⟩ := later.scan untagged more
      refine ⟨broken', ?_, by rw [h.skip apart unmatched, whether]⟩
      rw [replaceAll_of_none unmatched]
      refine .skip ?_ scan
      rw [after?_opening_eq_none_iff] at apart ⊢
      exact fun opens => apart ⟨opens.1, later.head opens.2⟩
  | @unclosed body still =>
      simp only [List.length_append, List.length_cons, opening] at lengths
      rw [h.replaceAll_append untagged_opening]
      have inside := (shorter body (by omega)).depth (Nat.le_refl 0) still
      exact ⟨false, .unclosed inside, by rw [or_iff_left (h.unclosed still)]⟩
  | @broken source start behind others clean inside =>
      simp only [List.length_append, List.length_cons, opening] at lengths
      obtain ⟨more, tag⟩ := (shorter ('<' :: behind) (by rw [List.length_cons]; omega)).tagged rfl
      rw [h.replaceAll_append untagged_opening, h.replaceAll_append clean, tag]
      exact ⟨true, .broken clean inside, by simp⟩
  | @slot _ source behind others closed more =>
      simp only [List.length_append, List.length_cons, opening] at lengths
      obtain ⟨clean, cleans⟩ := List.forall_mem_cons.mp untagged
      obtain ⟨broken', scan, whether⟩ := (shorter behind (by omega)).scan cleans more
      have brace : replaceAll rule ('}' :: behind) = '}' :: replaceAll rule behind :=
        replaceAll_of_none (h.quiet (by decide) (by decide) behind)
      rw [h.replaceAll_append untagged_opening, h.replaceAll_append clean, brace]
      exact ⟨broken', .slot closed scan, by rw [h.slot closed, whether]⟩

/-- A pass of a rule carries the search over the whole text, by induction on the length of the
text. -/
theorem Rule.Carries.replaceAll {rule : Rule} {breaks : List Char → Prop}
    (h : rule.Carries breaks) (text : List Char)
    : Markup.Carries (breaks text) text (Text.replaceAll rule text) := by
  cases matching : rule text with
  | some split =>
      have shorter := h.shrinks matching
      rw [replaceAll_of_some matching shorter]
      exact h.matched matching (Rule.Carries.replaceAll h split.2)
  | none =>
      cases text with
      | nil =>
          rw [Text.replaceAll]
          refine ⟨fun {broken _} _ scan => ⟨broken, scan, ?_⟩, fun _ _ => rfl, id, fun same => ?_⟩
          · rw [or_iff_left h.nil]
          · cases same
      | cons c rest =>
          have step := replaceAll_of_none matching
          have later := Rule.Carries.replaceAll h rest
          refine ⟨h.scan_unmatched matching (fun text shorter => Rule.Carries.replaceAll h text),
            fun le still => ?_, fun brace => ?_, ?_⟩
          · rw [step]
            exact @depth?_append_mono _ _ later.depth _ _ le [c] still
          · rw [step] at brace
            exact brace
          · rintro rest' ⟨rfl, rfl⟩
            exact ⟨_, step⟩
termination_by text.length

-----------------------------------------------------------------------------------------
-- Text between two tags without braces
-----------------------------------------------------------------------------------------

/-- A text without the signs of placeholders. -/
def Mute (text : List Char) : Prop :=
  '@' ∉ text ∧ '{' ∉ text ∧ '}' ∉ text

instance (text : List Char) : Decidable (Mute text) :=
  inferInstanceAs (Decidable ('@' ∉ text ∧ '{' ∉ text ∧ '}' ∉ text))

theorem Mute.append {first second : List Char} (h : Mute first) (next : Mute second)
    : Mute (first ++ second) := by
  simp only [Mute, List.mem_append, not_or] at h next ⊢
  exact ⟨⟨h.1, next.1⟩, ⟨h.2.1, next.2.1⟩, ⟨h.2.2, next.2.2⟩⟩

theorem mute_of_blank {text : List Char} (h : ∀ c ∈ text, isBlank c = true) : Mute text := by
  have absent (c : Char) (shows : isBlank c = false) : c ∉ text := by
    intro member
    have blank := h c member
    rw [shows] at blank
    exact nomatch blank
  exact ⟨absent '@' rfl, absent '{' rfl, absent '}' rfl⟩

theorem Mute.depth?_append {text : List Char} (h : Mute text) (depth : Nat) (behind : List Char)
    : depth? depth (text ++ behind) = depth? depth behind := by
  rw [Template.depth?_append, depth?_of_not_mem h.2.2, List.count_eq_zero_of_not_mem h.2.1]
  rfl

/-- A match from an opening tag to a closing one, which stands behind a gap: both start with a mark,
and what replaces them starts with a sign. -/
structure Framed (mark sign : Char) (front gap tag start stop : List Char) : Prop where
  marks : mark = '\\' ∧ sign = '$' ∨ mark = '<' ∧ sign = '<'
  muteFront : Mute (mark :: front)
  muteGap : Mute gap
  untaggedGap : Untagged gap
  muteTag : Mute (mark :: tag)
  muteStart : Mute (sign :: start)
  muteStop : Mute (sign :: stop)

/-- A mute text does not go on with a brace. -/
theorem Mute.head?_ne {c : Char} {text : List Char} (h : Mute (c :: text)) (rest : List Char)
    : (c :: rest).head? ≠ some '{' := by
  intro brace
  obtain rfl := Option.some.inj brace
  exact h.2.1 List.mem_cons_self

/-- The closing tag and what replaces it leave an unclosed placeholder as it is. -/
theorem Framed.depth {mark sign : Char} {front gap tag start stop after new : List Char}
    (h : Framed mark sign front gap tag start stop) (carried : Carries False after new)
    {less more : Nat} (le : less ≤ more)
    (still : (depth? less (gap ++ (mark :: tag ++ after))).isSome)
    : (depth? more (sign :: stop ++ new)).isSome := by
  rw [h.muteGap.depth?_append, h.muteTag.depth?_append] at still
  rw [h.muteStop.depth?_append]
  exact carried.depth le still

/-- No placeholder goes on over the closing tag, so that what replaces the tag stands in for it. -/
theorem Framed.standsIn {mark sign : Char} {front gap tag start stop after new : List Char}
    (h : Framed mark sign front gap tag start stop) (carried : Carries False after new)
    : StandsIn (gap ++ (mark :: tag ++ after)) (sign :: stop ++ new) := by
  have barrier {inner : List Char} (clean : Untagged inner) : mark ∉ inner := by
    rcases h.marks with ⟨rfl, _⟩ | ⟨rfl, _⟩
    · exact clean.1
    · exact clean.2
  refine ⟨fun {broken found} clean scan => ?_, fun still => ?_, ?_, h.muteStop.head?_ne _,
    fun same clean => ?_, fun same clean => ?_⟩
  · rw [scan_append_of_not_mem h.muteGap.1, scan_append_of_not_mem h.muteTag.1] at scan
    obtain ⟨broken', scan, whether⟩ := carried.scan clean scan
    rw [or_false, Bool.eq_iff_iff.symm] at whether
    rw [scan_append_of_not_mem h.muteStop.1]
    exact whether ▸ scan
  · exact h.depth carried (Nat.le_refl _) still
  · cases gap with
    | nil => exact h.muteTag.head?_ne _
    | cons c gap => exact h.muteGap.head?_ne _
  · obtain ⟨_, brace, _⟩ := append_cons_inj same h.muteGap.2.2 (barrier clean)
    exact h.muteTag.2.2 (brace ▸ List.mem_cons_self)
  · obtain ⟨_, angle, _⟩ := append_cons_inj same h.untaggedGap.2 (barrier clean)
    rcases h.marks with ⟨slash, _⟩ | ⟨_, rfl⟩
    · exact absurd (slash.symm.trans angle) (by decide)
    · exact ⟨_, rfl⟩

/-- Replacing both tags carries the search over what stands between them and behind them. -/
theorem Framed.carries {mark sign : Char} {front gap tag start stop after new : List Char}
    (h : Framed mark sign front gap tag start stop) (carried : Carries False after new)
    (inner : List Char)
    : Carries False (mark :: front ++ (inner ++ (gap ++ (mark :: tag ++ after))))
        (sign :: start ++ (inner ++ (sign :: stop ++ new))) := by
  refine ⟨fun {broken found} clean scan => ⟨broken, ?_, by simp⟩, fun {less more} le still => ?_,
    fun brace => absurd brace (h.muteStart.head?_ne _), fun {rest} same => ?_⟩
  · rw [scan_append_of_not_mem h.muteFront.1] at scan
    rw [scan_append_of_not_mem h.muteStart.1]
    exact scan.standIn clean (h.standsIn carried)
  · rw [h.muteFront.depth?_append] at still
    rw [h.muteStart.depth?_append]
    exact depth?_append_mono (h.depth carried) le still
  · obtain ⟨angle, _⟩ := List.cons.inj same
    rcases h.marks with ⟨slash, _⟩ | ⟨_, rfl⟩
    · exact absurd (slash.symm.trans angle) (by decide)
    · exact ⟨_, rfl⟩

/-- A rule that replaces tags without braces breaks no placeholder. -/
theorem carries_of_framed {rule : Rule} (member : rule ∈ rules)
    (framed : ∀ {text output after}, rule text = some (output, after) →
      ∃ mark sign front gap tag start stop inner, Framed mark sign front gap tag start stop
        ∧ text = mark :: front ++ (inner ++ (gap ++ (mark :: tag ++ after)))
        ∧ output = sign :: start ++ (inner ++ sign :: stop))
    : rule.Carries (fun _ => False) := by
  refine
    { quiet := rule_eq_none member
      shrinks := fun matching => ?_
      matched := fun {text output after new} matching carried => ?_
      nil := id
      skip := fun _ _ => Iff.rfl
      slot := fun _ => Iff.rfl
      unclosed := fun _ => id }
  · obtain ⟨mark, sign, front, gap, tag, start, stop, inner, _, rfl, rfl⟩ := framed matching
    simp only [List.length_append, List.length_cons]
    omega
  · obtain ⟨mark, sign, front, gap, tag, start, stop, inner, frame, rfl, rfl⟩ := framed matching
    rw [List.append_assoc, List.append_assoc]
    exact frame.carries carried inner

/-- Centred text keeps its placeholders. -/
theorem centred_carries : Rule.Carries centred (fun _ => False) := by
  refine carries_of_framed (by simp [rules]) (fun {text output after} matching => ?_)
  obtain ⟨rest, opens, matching⟩ := Option.bind_eq_some_iff.mp matching
  obtain ⟨⟨inner, after'⟩, closes, same⟩ := Option.bind_eq_some_iff.mp matching
  obtain ⟨rfl, rfl⟩ := Prod.mk.inj (Option.some.inj same)
  rw [after?_eq_some_iff] at opens
  refine ⟨'<', '<', "center>".toList, [], "/center>".toList,
    "p style=\"text-align:center\">".toList, "/p>".toList, inner, ?_, ?_, ?_⟩
  · exact ⟨Or.inr ⟨rfl, rfl⟩, by decide, by decide, untagged_nil, by decide, by decide, by decide⟩
  · rw [opens, append_of_breakInLine closes]
    rfl
  · exact List.append_assoc _ _ _

/-- Displayed formulas keep their placeholders. -/
theorem displayed_carries : Rule.Carries displayed (fun _ => False) := by
  refine carries_of_framed (by simp [rules]) (fun {text output after} matching => ?_)
  obtain ⟨rest, opens, matching⟩ := Option.bind_eq_some_iff.mp matching
  obtain ⟨⟨inner, after'⟩, closes, matching⟩ := Option.bind_eq_some_iff.mp matching
  obtain ⟨blanks, leading, blank⟩ := exists_leading_blanks rest
  obtain ⟨blanks', trailing, blank'⟩ := exists_blanks inner
  have untagged : Untagged blanks' := by
    constructor
    · exact fun member => absurd (blank' _ member) (by decide)
    · exact fun member => absurd (blank' _ member) (by decide)
  change (if (trimRight inner).contains '\n' then none
    else some ('$' :: trimRight inner ++ ['$'], after')) = some (output, after) at matching
  split at matching
  · cases matching
  · obtain ⟨rfl, rfl⟩ := Prod.mk.inj (Option.some.inj matching)
    rw [after?_eq_some_iff] at opens
    refine ⟨'\\', '$', '[' :: blanks, blanks', "]".toList, [], [], trimRight inner, ?_, ?_, ?_⟩
    · have bracket : Mute ['\\', '['] := by decide
      exact ⟨Or.inl ⟨rfl, rfl⟩, bracket.append (mute_of_blank blank), mute_of_blank blank',
        untagged, by decide, by decide, by decide⟩
    · rw [opens, leading, ← append_of_breakOn closes]
      conv => lhs; rw [trailing]
      simp
    · rfl

end QuizVariants.Markup
