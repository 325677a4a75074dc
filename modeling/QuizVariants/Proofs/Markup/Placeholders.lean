import Mathlib.Data.List.Infix
import QuizVariants.Proofs.Markup.Passes

/-! Placeholders in text with markup.
Tags without braces keep every placeholder. A tag with braces ends at the next closing brace of its
line, which belongs to a placeholder where one opens in between; such a placeholder is lost. Main
statement: this is the only way in which the cleanup changes the placeholders of a text.
-/

namespace QuizVariants.Markup

open QuizVariants.Template
open QuizVariants.Text

-----------------------------------------------------------------------------------------
-- Tags that run into a placeholder
-----------------------------------------------------------------------------------------

/-- A tag in the text in front of a placeholder that closes neither there nor, in the line, before
the first closing brace of the placeholder. -/
def RunsOn (tag front source : List Char) : Prop :=
  ∃ inner, tag ++ inner <:+ front ∧ '}' ∉ inner ∧ '\n' ∉ inner
    ∧ '\n' ∉ before '}' source

/-- A tag runs on exactly if it starts one of the ends of the text in front. -/
theorem runsOn_iff_exists_tail {tag front source : List Char}
    : RunsOn tag front source
      ↔ ∃ ending ∈ front.tails, tag <+: ending ∧ '}' ∉ ending.drop tag.length
        ∧ '\n' ∉ ending.drop tag.length ∧ '\n' ∉ before '}' source := by
  constructor
  · rintro ⟨inner, ends, closed, inLine, sourceInLine⟩
    refine ⟨tag ++ inner, (List.mem_tails _ _).mpr ends, List.prefix_append tag inner, ?_, ?_,
      sourceInLine⟩
    · rwa [List.drop_left]
    · rwa [List.drop_left]
  · rintro ⟨ending, member, ⟨inner, rfl⟩, closed, inLine, sourceInLine⟩
    rw [List.drop_left] at closed inLine
    exact ⟨inner, (List.mem_tails _ _).mp member, closed, inLine, sourceInLine⟩

instance (tag front source : List Char) : Decidable (RunsOn tag front source) :=
  decidable_of_iff _ runsOn_iff_exists_tail.symm

/-- A tag that runs into one of the placeholders of a text. -/
def RunsInto (tag text : List Char) : Prop :=
  ∃ place ∈ (ofChars text).placeholders, RunsOn tag place.1.toList place.2.toList

theorem not_runsInto_of_none {tag text : List Char} (h : firstSlot? text = none)
    : ¬ RunsInto tag text := by
  rw [RunsInto, placeholders_of_none h]
  rintro ⟨_, member, _⟩
  exact nomatch member

theorem runsInto_iff_of_some {tag text front source rest : List Char}
    (h : firstSlot? text = some (front, source, rest))
    : RunsInto tag text ↔ RunsOn tag front source ∨ RunsInto tag rest := by
  simp only [RunsInto, placeholders_of_some h, List.mem_cons, or_and_right, exists_or,
    exists_eq_left, String.toList_ofList]

/-- A tag runs into the same placeholders of two texts whose first ones stand behind the same
tags. -/
theorem runsInto_iff_of_map {tag text rest : List Char} {front : List Char → List Char}
    (same : firstSlot? text = (firstSlot? rest).map (fun found => (front found.1, found.2)))
    (first : ∀ {before source behind}, firstSlot? rest = some (before, source, behind) →
      (RunsOn tag (front before) source ↔ RunsOn tag before source))
    : RunsInto tag text ↔ RunsInto tag rest := by
  cases found : firstSlot? rest with
  | none =>
      rw [found] at same
      exact iff_of_false (not_runsInto_of_none same) (not_runsInto_of_none found)
  | some slot =>
      rw [found] at same
      rw [runsInto_iff_of_some same, runsInto_iff_of_some found]
      exact or_congr_left (first found)

-----------------------------------------------------------------------------------------
-- Rules with braces
-----------------------------------------------------------------------------------------

/-- A rule that replaces a tag with an opening brace and the next closing brace of the line. -/
structure Braced (rule : Rule) (tag start stop : List Char) : Prop where
  member : rule ∈ rules
  matches_iff : ∀ {text output after}, rule text = some (output, after)
    ↔ ∃ inner, text = tag ++ (inner ++ '}' :: after)
      ∧ output = '<' :: start ++ (inner ++ '<' :: stop) ∧ '}' ∉ inner ∧ '\n' ∉ inner
  slash : tag.head? = some '\\'
  muteTag : '@' ∉ tag ∧ '}' ∉ tag ∧ tag.count '{' = 1
  muteStart : Mute ('<' :: start)
  muteStop : Mute ('<' :: stop)

/-- Tags make such a rule when the closing one is a brace. -/
theorem braced_enclosed {opening front back : String} (start stop : List Char)
    (member : enclosed opening "\x7d" front back ∈ rules)
    (first : front.toList = '<' :: start) (last : back.toList = '<' :: stop)
    (slash : opening.toList.head? = some '\\')
    (muteTag : '@' ∉ opening.toList ∧ '}' ∉ opening.toList ∧ opening.toList.count '{' = 1)
    (muteStart : Mute ('<' :: start)) (muteStop : Mute ('<' :: stop))
    : Braced (enclosed opening "\x7d" front back) opening.toList start stop := by
  refine ⟨member, fun {text output rest} => ⟨fun matching => ?_, ?_⟩, slash, muteTag, muteStart,
    muteStop⟩
  · obtain ⟨behind, opens, matching⟩ := Option.bind_eq_some_iff.mp matching
    obtain ⟨⟨inner, rest'⟩, closes, same⟩ := Option.bind_eq_some_iff.mp matching
    obtain ⟨rfl, rfl⟩ := Prod.mk.inj (Option.some.inj same)
    obtain ⟨rfl, closed, inLine⟩ := breakInLine_eq_some_iff.mp closes
    exact ⟨inner, after?_eq_some_iff.mp opens, by simp [first, last], closed, inLine⟩
  · rintro ⟨inner, rfl, rfl, closed, inLine⟩
    refine Option.bind_eq_some_iff.mpr ⟨_, after?_eq_some_iff.mpr rfl, ?_⟩
    refine Option.bind_eq_some_iff.mpr
      ⟨(inner, rest), breakInLine_eq_some_iff.mpr ⟨rfl, closed, inLine⟩, ?_⟩
    simp [first, last]

section Braced

variable {rule : Rule} {tag start stop : List Char}

/-- A tag that runs into a placeholder is matched where it starts. -/
theorem Braced.skip (h : Braced rule tag start stop) {c : Char} {rest : List Char}
    (apart : after? opening (c :: rest) = none) (unmatched : rule (c :: rest) = none)
    : RunsInto tag (c :: rest) ↔ RunsInto tag rest := by
  have skipped := firstSlot?_skip apart
  refine runsInto_iff_of_map skipped (fun {front source behind} found => ⟨?_, ?_⟩)
  · rintro ⟨inner, ends, closed, inLine, sourceInLine⟩
    refine ⟨inner, (List.suffix_cons_iff.mp ends).resolve_left (fun same => ?_), closed, inLine,
      sourceInLine⟩
    -- The match of a tag that starts here ends at the first brace of the placeholder.
    obtain ⟨later, split⟩ := exists_before '}' source behind
    rw [found] at skipped
    have whole := append_of_firstSlot? skipped
    have matching : rule (c :: rest)
        = some ('<' :: start ++ (inner ++ (opening ++ before '}' source) ++ '<' :: stop),
            later) := by
      refine h.matches_iff.mpr ⟨_, ?_, rfl, ?_, ?_⟩
      · rw [← whole, ← same]
        simp [split]
      · simp [closed, opening, not_mem_before]
      · simp [inLine, opening, sourceInLine]
    cases unmatched.symm.trans matching
  · rintro ⟨inner, ends, more⟩
    exact ⟨inner, List.suffix_cons_iff.mpr (Or.inr ends), more⟩

theorem after?_opening_brace (rest : List Char) : after? opening ('}' :: rest) = none :=
  after?_opening_eq_none_iff.mpr (fun opens => absurd opens.1 (by decide))

/-- A tag that closes in front of all placeholders runs into none of them. -/
theorem Braced.behind (h : Braced rule tag start stop) {inner after : List Char}
    (silent : NoOpening inner)
    : RunsInto tag (tag ++ (inner ++ '}' :: after)) ↔ RunsInto tag after := by
  have skipped : firstSlot? (tag ++ (inner ++ '}' :: after))
      = (firstSlot? after).map (fun found => (tag ++ inner ++ '}' :: found.1, found.2)) := by
    rw [← List.append_assoc, firstSlot?_append (silent.append_of_not_mem h.muteTag.1) (fun _ => by simp),
      firstSlot?_skip (after?_opening_brace after), Option.map_map]
    rfl
  refine @runsInto_iff_of_map _ _ _ (fun front => tag ++ inner ++ '}' :: front) skipped
    (fun {front source behind} _ => ⟨?_, ?_⟩)
  · rintro ⟨inner', ends, closed', more⟩
    refine ⟨inner', suffix_of_not_mem ends ?_, closed', more⟩
    exact fun member => (List.mem_append.mp member).elim h.muteTag.2.1 closed'
  · rintro ⟨inner', ends, more⟩
    refine ⟨inner', ends.trans ?_, more⟩
    exact (List.suffix_cons '}' front).trans (List.suffix_append _ _)

/-- Without its closing brace a placeholder stays unclosed, also with one brace less in front. -/
theorem Braced.depth (h : Braced rule tag start stop) {breaks : Prop} {after new : List Char}
    (carried : Carries breaks after new) {less more : Nat} (le : less ≤ more + 1)
    (still : (depth? less ('}' :: after)).isSome)
    : (depth? more ('<' :: stop ++ new)).isSome := by
  rw [h.muteStop.depth?_append]
  cases less with
  | zero => exact nomatch still
  | succ less => exact carried.depth (Nat.le_of_succ_le_succ le) still

/-- The search goes on over a match in which no placeholder opens. -/
theorem Braced.scan_silent (h : Braced rule tag start stop) {inner after new : List Char}
    (carried : Carries (RunsInto tag after) after new) (silent : NoOpening inner)
    {broken : Bool} {found : List (List Char)} (clean : ∀ source ∈ found, Untagged source)
    (scan : Scan broken found (inner ++ '}' :: after))
    : ∃ broken', Scan broken' found (inner ++ ('<' :: stop ++ new))
        ∧ (broken' = true ↔ broken = true ∨ RunsInto tag (tag ++ (inner ++ '}' :: after))) := by
  rw [scan_append_iff silent (by simp), scan_skip_iff (after?_opening_brace after)] at scan
  obtain ⟨broken', scan', whether⟩ := carried.scan clean scan
  refine ⟨broken', ?_, by rw [whether, h.behind silent]⟩
  refine (scan_append_iff silent (h.muteStop.head?_ne (stop ++ new))).mpr ?_
  exact (scan_append_of_not_mem h.muteStop.1 new).mpr scan'

/-- An opening in a match, behind text without one, is the first one of the text. -/
theorem Braced.firstSlot?_within (h : Braced rule tag start stop) {front : List Char}
    (silent : NoOpening front) (body : List Char)
    : firstSlot? (tag ++ (front ++ (opening ++ body)))
        = (closeBrace? 0 body).map (fun split => (tag ++ front, split.1, split.2)) := by
  have apart : (opening ++ body).head? ≠ some '{' := by simp [opening]
  rw [← List.append_assoc,
    firstSlot?_append (silent.append_of_not_mem h.muteTag.1) fun _ => apart, firstSlot?_opening,
    Option.map_map]
  simp [Function.comp_def]

/-- A placeholder that opens in a match goes on to the closing brace at least, so that the tag in
its place breaks the placeholder. -/
theorem Braced.scan_opened (h : Braced rule tag start stop) {front inside after new : List Char}
    (carried : Carries (RunsInto tag after) after new) (silent : NoOpening front)
    (closed : '}' ∉ front ++ inside) (inLine : '\n' ∉ front ++ inside)
    {broken : Bool} {found : List (List Char)} (clean : ∀ source ∈ found, Untagged source)
    (scan : Scan broken found (opening ++ (inside ++ '}' :: after)))
    : ∃ broken', Scan broken' found (opening ++ (inside ++ ('<' :: stop ++ new)))
        ∧ (broken' = true ↔ broken = true
          ∨ RunsInto tag (tag ++ (front ++ (opening ++ (inside ++ '}' :: after))))) := by
  obtain ⟨closedFront, closedInside⟩ := not_or.mp (List.mem_append.not.mp closed)
  obtain ⟨inLineFront, inLineInside⟩ := not_or.mp (List.mem_append.not.mp inLine)
  have within := h.firstSlot?_within silent (inside ++ '}' :: after)
  rcases scan_opening_cases scan with ⟨rfl, rfl, still⟩
    | ⟨rfl, some, clear, rest, split, untagged, apart⟩
    | ⟨source, rest, others, rfl, split, balanced, _⟩
  -- Nothing closes the placeholder, and without the brace there is even less to close it.
  · rw [closeBrace?_eq_none_iff.mpr still] at within
    refine ⟨false, .unclosed ?_, by simp [not_runsInto_of_none within]⟩
    exact depth?_append_mono (fun le => h.depth carried (Nat.le_succ_of_le le)) (Nat.le_refl 0)
      still
  -- The tag that breaks the placeholder stands in front of the brace, and stays there.
  · obtain ⟨source, others, rfl⟩ := List.exists_cons_of_ne_nil some
    obtain ⟨more, rfl⟩ := exists_between split apart (by decide)
    refine ⟨true, ?_, by simp⟩
    rw [List.append_assoc]
    exact .broken untagged apart
  -- The placeholder goes on to the replaced brace at least.
  · obtain ⟨later, first⟩ := exists_before '}' source rest
    obtain ⟨same, _⟩ := append_cons_inj (split.trans first) closedInside
      (not_mem_before '}' source)
    have untagged : Untagged inside := by
      obtain ⟨slash, angle⟩ := clean source List.mem_cons_self
      have part : inside ⊆ source := same ▸ (List.takeWhile_sublist _).subset
      exact ⟨fun member => slash (part member), fun member => angle (part member)⟩
    rw [split, closeBrace?_append balanced] at within
    have runs : RunsOn tag (tag ++ front) source :=
      ⟨front, List.suffix_rfl, closedFront, inLineFront, same ▸ inLineInside⟩
    exact ⟨true, .broken untagged closedInside,
      by simp [split, (runsInto_iff_of_some within).mpr (Or.inl runs)]⟩

/-- Replacing a match carries the search over what stands between the braces, by cases on whether a
placeholder opens there. -/
theorem Braced.scan (h : Braced rule tag start stop) {inner after new : List Char}
    (carried : Carries (RunsInto tag after) after new) (closed : '}' ∉ inner)
    (inLine : '\n' ∉ inner) {broken : Bool} {found : List (List Char)}
    (clean : ∀ source ∈ found, Untagged source)
    (scan : Scan broken found (tag ++ (inner ++ '}' :: after)))
    : ∃ broken', Scan broken' found ('<' :: start ++ (inner ++ ('<' :: stop ++ new)))
        ∧ (broken' = true ↔ broken = true ∨ RunsInto tag (tag ++ (inner ++ '}' :: after))) := by
  rw [scan_append_of_not_mem h.muteTag.1] at scan
  simp only [scan_append_of_not_mem h.muteStart.1]
  cases opens : breakOn opening inner with
  | none => exact h.scan_silent carried opens clean scan
  | some split =>
      obtain ⟨front, inside⟩ := split
      have silent : NoOpening front := noOpening_of_breakOn opens
      obtain rfl := append_of_breakOn opens
      have apart (behind : List Char) : (opening ++ behind).head? ≠ some '{' := by simp [opening]
      simp only [List.append_assoc, scan_append_iff silent (apart _)] at scan ⊢
      refine h.scan_opened carried silent ?_ ?_ clean scan
      · exact fun member => closed (by simpa [opening] using member)
      · exact fun member => inLine (by simpa [opening] using member)

theorem Braced.carries (h : Braced rule tag start stop) : rule.Carries (RunsInto tag) := by
  refine
    { quiet := rule_eq_none h.member
      shrinks := fun matching => ?_
      matched := fun {text output after new} matching carried => ?_
      nil := not_runsInto_of_none rfl
      skip := h.skip
      slot := fun {source rest} closed => ?_
      unclosed := fun {body} still => ?_ }
  · obtain ⟨inner, rfl, _⟩ := h.matches_iff.mp matching
    simp only [List.length_append, List.length_cons]
    omega
  · obtain ⟨inner, rfl, rfl, closed, inLine⟩ := h.matches_iff.mp matching
    rw [List.append_assoc, List.append_assoc]
    refine ⟨fun clean scan => h.scan carried closed inLine clean scan,
      fun {less more} le still => ?_, fun brace => absurd brace (h.muteStart.head?_ne _),
      fun {rest} same => ?_⟩
    · rw [depth?_append, depth?_of_not_mem h.muteTag.2.1, Option.bind_some, depth?_append,
        depth?_of_not_mem closed, h.muteTag.2.2] at still
      rw [h.muteStart.depth?_append, depth?_append, depth?_of_not_mem closed]
      exact h.depth carried (by omega) still
    · have slash := h.slash
      cases tag with
      | nil => exact nomatch slash
      | cons c tag =>
          obtain ⟨rfl, _⟩ := List.cons.inj same
          exact absurd (Option.some.inj slash) (by decide)
  · have first : firstSlot? (opening ++ (source ++ '}' :: rest)) = some ([], source, rest) := by
      rw [firstSlot?_opening, closeBrace?_append closed]
      rfl
    rw [runsInto_iff_of_some first, or_iff_right]
    rintro ⟨inner, ends, _⟩
    have slash := h.slash
    rw [(List.append_eq_nil_iff.mp (List.suffix_nil.mp ends)).1] at slash
    exact nomatch slash
  · refine not_runsInto_of_none ?_
    rw [firstSlot?_opening, closeBrace?_eq_none_iff.mpr still]
    rfl

end Braced

/-- Bold text loses the placeholders that its tag runs into. -/
theorem bold_carries : Rule.Carries bold (RunsInto "\\bf\x7b".toList) := by
  refine (braced_enclosed "b>".toList "/b>".toList ?_ rfl rfl rfl ?_ ?_ ?_).carries
  · simp [rules, bold]
  all_goals decide

/-- Slanted text loses the placeholders that its tag runs into. -/
theorem italic_carries : Rule.Carries italic (RunsInto "\\it\x7b".toList) := by
  refine (braced_enclosed "i>".toList "/i>".toList ?_ rfl rfl rfl ?_ ?_ ?_).carries
  · simp [rules, italic]
  all_goals decide

/-- Underlined text loses the placeholders that its tag runs into. -/
theorem underlined_carries : Rule.Carries underlined (RunsInto "\\uline\x7b".toList) := by
  refine (braced_enclosed "i>".toList "/i>".toList ?_ rfl rfl rfl ?_ ?_ ?_).carries
  · simp [rules, underlined]
  all_goals decide

-----------------------------------------------------------------------------------------
-- The whole cleanup
-----------------------------------------------------------------------------------------

/-- The cleanup keeps the placeholders of a text exactly if none of its tags with braces runs into
one of them, each tag being looked for in the text that the passes before it have left. Placeholders
are taken to hold no signs of markup.
-/
theorem sources_compile_clean_iff (text : String)
    (untagged : ∀ source ∈ (compile text).sources, Untagged source.toList)
    : (compile (.ofList (clean text.toList))).sources = (compile text).sources
      ↔ ¬ RunsInto "\\bf\x7b".toList text.toList
        ∧ ¬ RunsInto "\\it\x7b".toList (replaceAll bold text.toList)
        ∧ ¬ RunsInto "\\uline\x7b".toList (replaceAll italic (replaceAll bold text.toList)) := by
  have clear : ∀ source ∈ (compile text).sources.map String.toList, Untagged source :=
    List.forall_mem_map.mpr untagged
  -- The search is followed through the five passes; it is broken at the end if one broke it.
  obtain ⟨_, afterBold, bolded⟩ :=
    (bold_carries.replaceAll text.toList).scan clear (scan_sources text.toList)
  obtain ⟨_, afterItalic, slanted⟩ := (italic_carries.replaceAll _).scan clear afterBold
  obtain ⟨_, afterUnderlined, lined⟩ := (underlined_carries.replaceAll _).scan clear afterItalic
  obtain ⟨_, afterDisplayed, displays⟩ :=
    (displayed_carries.replaceAll _).scan clear afterUnderlined
  obtain ⟨broken, afterAll, centres⟩ := (centred_carries.replaceAll _).scan clear afterDisplayed
  rw [displays, lined, slanted, bolded] at centres
  have lost : broken = true ↔ RunsInto "\\bf\x7b".toList text.toList
      ∨ RunsInto "\\it\x7b".toList (replaceAll bold text.toList)
      ∨ RunsInto "\\uline\x7b".toList (replaceAll italic (replaceAll bold text.toList)) := by
    simpa [or_assoc] using centres
  have sources : (compile text).sources
      = ((compile text).sources.map String.toList).map String.ofList := by
    rw [List.map_map]
    exact (List.map_id' _).symm.trans (List.map_congr_left (fun _ _ => String.ofList_toList.symm))
  have cleaned : compile (.ofList (clean text.toList)) = ofChars (clean text.toList) := by
    rw [compile, String.toList_ofList]
  rw [cleaned, sources, ← not_or, ← not_or, ← lost]
  cases broken with
  | false => exact iff_of_true afterAll.sources_eq nofun
  | true => exact iff_of_false (afterAll.sources_ne clear) (fun kept => kept rfl)

/-- A tag that closes in front of a placeholder keeps it, also inside a displayed formula. -/
theorem sources_compile_clean_closed
    : (∀ source ∈ (compile "\\bf\x7bn\x7d \\[ @\x7ba\x7d \\]").sources, Untagged source.toList)
      ∧ (compile (.ofList (clean "\\bf\x7bn\x7d \\[ @\x7ba\x7d \\]".toList))).sources
        = (compile "\\bf\x7bn\x7d \\[ @\x7ba\x7d \\]").sources := by
  have untagged : ∀ source ∈ (compile "\\bf\x7bn\x7d \\[ @\x7ba\x7d \\]").sources,
      Untagged source.toList := by
    have sources : (compile "\\bf\x7bn\x7d \\[ @\x7ba\x7d \\]").sources = ["a"] := by decide +kernel
    rw [sources]
    unfold Untagged
    decide
  have apart {tag text : List Char} {front : String}
      (places : (ofChars text).placeholders = [(front, "a")])
      (ends : ¬ RunsOn tag front.toList "a".toList)
      : ¬ RunsInto tag text := by
    rw [RunsInto, places]
    simpa using ends
  refine ⟨untagged, (sources_compile_clean_iff _ untagged).mpr ⟨?_, ?_, ?_⟩⟩
  · exact @apart _ _ "\\bf\x7bn\x7d \\[ " (by decide +kernel) (by decide)
  · exact @apart _ _ "<b>n</b> \\[ " (by decide +kernel) (by decide)
  · exact @apart _ _ "<b>n</b> \\[ " (by decide +kernel) (by decide)

/-- A tag around a placeholder ends inside it, so that the placeholder becomes another one. -/
theorem sources_compile_clean_bold
    : (∀ source ∈ (compile "\\bf\x7b@\x7ba\x7d\x7d").sources,
        '\\' ∉ source.toList ∧ '<' ∉ source.toList ∧ '>' ∉ source.toList)
      ∧ (compile (.ofList (clean "\\bf\x7b@\x7ba\x7d\x7d".toList))).sources
        ≠ (compile "\\bf\x7b@\x7ba\x7d\x7d").sources := by
  have sources : (compile "\\bf\x7b@\x7ba\x7d\x7d").sources = ["a"] := by decide +kernel
  have cleaned : (compile (.ofList (clean "\\bf\x7b@\x7ba\x7d\x7d".toList))).sources
      = ["a</b>"] := by decide +kernel
  rw [cleaned, sources]
  decide

end QuizVariants.Markup
