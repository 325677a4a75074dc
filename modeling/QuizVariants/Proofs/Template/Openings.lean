import QuizVariants.Proofs.Template.Substitution

/-! Openings that nothing closes.
A placeholder is the shortest span behind an at sign in which as many braces are closed as are
opened. An opening without such a span is plain text, so a search for all placeholders goes on
behind it; a template is searched up to the first of these openings only.
-/

namespace QuizVariants.Template

open QuizVariants.Text

-----------------------------------------------------------------------------------------
-- Spans in which the braces are balanced
-----------------------------------------------------------------------------------------

/-- As many braces are closed as are opened. -/
def Balanced (text : List Char) : Prop :=
  text.count '{' = text.count '}'

/-- The shortest part at the start of a text that shows something and is balanced. -/
structure ShortestBalanced (span text : List Char) : Prop where
  front : span <+: text
  shows : span ≠ []
  balanced : Balanced span
  shortest : ∀ other, other <+: text → other ≠ [] → Balanced other → span.length ≤ other.length

/-- Nothing closes the brace in front of a text. -/
def Unclosed (body : List Char) : Prop :=
  ∀ span, ¬ ShortestBalanced span ('{' :: body)

/-- Open braces are counted by their characters, by induction on the text. -/
theorem count_of_depth? {before after : Nat} {text : List Char}
    (h : depth? before text = some after)
    : after + text.count '}' = before + text.count '{' := by
  induction text generalizing before with
  | nil =>
      obtain rfl := Option.some.inj h
      rfl
  | cons c text ih =>
      by_cases opens : c = '{'
      · subst opens
        have rest := ih h
        rw [List.count_cons_self, List.count_cons_of_ne (by decide)]
        omega
      · by_cases closes : c = '}'
        · subst closes
          cases before with
          | zero => exact nomatch h
          | succ before =>
              have rest := ih h
              rw [List.count_cons_self, List.count_cons_of_ne (by decide)]
              omega
        · rw [depth?_other opens closes] at h
          rw [List.count_cons_of_ne opens, List.count_cons_of_ne closes]
          exact ih h

/-- At no place of a text are more braces closed than opened, if the text can be counted through. -/
theorem count_le_of_prefix {text front : List Char} (h : (depth? 0 text).isSome)
    (start : front <+: text)
    : front.count '}' ≤ front.count '{' := by
  obtain ⟨back, rfl⟩ := start
  rw [depth?_append] at h
  cases left : depth? 0 front with
  | none => rw [left] at h; exact nomatch h
  | some depth =>
      have counted := count_of_depth? left
      omega

/-- A balanced start behind an open brace closes that brace. -/
theorem exists_of_balanced {body span : List Char} (start : span <+: '{' :: body)
    (shows : span ≠ []) (balanced : Balanced span)
    : ∃ front, span = '{' :: front ∧ front <+: body ∧ front.count '}' = front.count '{' + 1 := by
  cases span with
  | nil => exact absurd rfl shows
  | cons c front =>
      obtain ⟨rfl, inside⟩ := List.cons_prefix_cons.mp start
      rw [Balanced, List.count_cons_self, List.count_cons_of_ne (by decide)] at balanced
      exact ⟨front, rfl, inside, balanced.symm⟩

/-- A text that leaves no brace open stands in the shortest balanced span. -/
theorem shortestBalanced_of_depth? {source : List Char} (h : depth? 0 source = some 0)
    (rest : List Char)
    : ShortestBalanced ('{' :: (source ++ ['}'])) ('{' :: (source ++ '}' :: rest)) := by
  have counted := count_of_depth? h
  refine ⟨⟨rest, by simp⟩, List.cons_ne_nil _ _, ?_, fun other start shows balanced => ?_⟩
  · have inner : (source ++ ['}']).count '{' = source.count '{' := by simp
    rw [Balanced, List.count_cons_self, inner, List.count_cons_of_ne (by decide), List.count_append,
      List.count_singleton_self]
    omega
  · obtain ⟨front, rfl, inside, closes⟩ := exists_of_balanced start shows balanced
    -- A start that ends before the closing brace is a start of the source.
    rcases Nat.lt_or_ge source.length front.length with longer | shorter
    · simpa [Nat.add_one_le_iff] using longer
    · have within : front <+: source :=
        List.prefix_of_prefix_length_le inside (List.prefix_append source _) shorter
      have few := count_le_of_prefix (by rw [h]; rfl) within
      omega

theorem unclosed_of_isSome {body : List Char} (h : (depth? 0 body).isSome) : Unclosed body := by
  intro span shortest
  obtain ⟨front, _, inside, closes⟩ :=
    exists_of_balanced shortest.front shortest.shows shortest.balanced
  have few := count_le_of_prefix h inside
  omega

/-- The shortest balanced span behind an opening is unique. -/
theorem ShortestBalanced.eq {first second text : List Char} (h : ShortestBalanced first text)
    (other : ShortestBalanced second text)
    : first = second := by
  have same : first.length = second.length :=
    Nat.le_antisymm (h.shortest second other.front other.shows other.balanced)
      (other.shortest first h.front h.shows h.balanced)
  exact (List.prefix_of_prefix_length_le h.front other.front (Nat.le_of_eq same)).eq_of_length same

/-- The braces of a source are closed exactly if it stands in the shortest balanced span. -/
theorem shortestBalanced_iff {source rest : List Char}
    : ShortestBalanced ('{' :: (source ++ ['}'])) ('{' :: (source ++ '}' :: rest))
      ↔ depth? 0 source = some 0 := by
  refine ⟨fun h => ?_, fun h => shortestBalanced_of_depth? h rest⟩
  rcases closeBrace?_cases 0 (source ++ '}' :: rest) with ⟨inner, after, split, closed⟩ | ⟨_, still⟩
  · have shortest := shortestBalanced_of_depth? closed after
    rw [← split] at shortest
    obtain rfl := (List.append_inj' (List.cons.inj (h.eq shortest)).2 rfl).1
    exact closed
  · exact absurd h (unclosed_of_isSome still _)

/-- An opening is unclosed exactly if its body can be counted through. -/
theorem unclosed_iff {body : List Char} : Unclosed body ↔ (depth? 0 body).isSome := by
  refine ⟨fun open' => ?_, unclosed_of_isSome⟩
  rcases closeBrace?_cases 0 body with ⟨inner, rest, rfl, closed⟩ | ⟨_, still⟩
  · exact absurd (shortestBalanced_of_depth? closed rest) (open' _)
  · exact still

-----------------------------------------------------------------------------------------
-- The search for all placeholders
-----------------------------------------------------------------------------------------

/-- The placeholders that a search through all of a text finds: it takes the shortest balanced span
behind an opening, and passes by an opening without one as by any other text. -/
inductive Finds : (sources : List (List Char)) → List Char → Prop where
  | done : Finds [] []
  | skip {sources : List (List Char)} {c : Char} {rest : List Char}
    (apart : ¬ opening <+: c :: rest) (more : Finds sources rest) : Finds sources (c :: rest)
  | slot {source rest : List Char} {sources : List (List Char)}
    (span : ShortestBalanced ('{' :: (source ++ ['}'])) ('{' :: (source ++ '}' :: rest)))
    (more : Finds sources rest) : Finds (source :: sources) (opening ++ (source ++ '}' :: rest))
  | unclosed {body : List Char} {sources : List (List Char)} (still : Unclosed body)
    (more : Finds sources body) : Finds sources (opening ++ body)

/-- A complete placeholder stands behind an opening that nothing closes. -/
def HidesPlaceholder (text : List Char) : Prop :=
  ∃ before body, text = before ++ (opening ++ body) ∧ Unclosed body ∧ HasPlaceholder body

theorem after?_opening_eq_none {text : List Char} (h : ¬ opening <+: text)
    : after? opening text = none := by
  refine Option.eq_none_iff_forall_ne_some.mpr (fun rest found => h ?_)
  exact ⟨rest, (after?_eq_some_iff.mp found).symm⟩

/-- Every text is searched to its end, by induction on its length. -/
theorem exists_finds (text : List Char) : ∃ sources, Finds sources text := by
  match text with
  | [] => exact ⟨[], .done⟩
  | c :: rest =>
      by_cases opens : opening <+: c :: rest
      · obtain ⟨body, whole⟩ := opens
        have lengths := congrArg List.length whole
        simp only [List.length_append, List.length_cons, opening] at lengths
        rw [← whole]
        rcases closeBrace?_cases 0 body with ⟨source, after, rfl, closed⟩ | ⟨_, still⟩
        · have shorter : after.length ≤ rest.length := by
            simp only [List.length_append, List.length_cons] at lengths
            omega
          obtain ⟨sources, found⟩ := exists_finds after
          exact ⟨_, .slot (shortestBalanced_iff.mpr closed) found⟩
        · have shorter : body.length ≤ rest.length := by omega
          obtain ⟨sources, found⟩ := exists_finds body
          exact ⟨_, .unclosed (unclosed_iff.mpr still) found⟩
      · obtain ⟨sources, found⟩ := exists_finds rest
        exact ⟨_, .skip opens found⟩
termination_by text.length

/-- What is found is unique, by cases on two searches of a text that agree at each step. -/
theorem Finds.eq {first second : List (List Char)} {text : List Char} (h : Finds first text)
    (other : Finds second text)
    : first = second := by
  induction h generalizing second with
  | done =>
      generalize same : ([] : List Char) = text at other
      cases other with
      | done => rfl
      | skip | slot | unclosed => exact nomatch same
  | @skip sources c rest apart more ih =>
      generalize same : c :: rest = text at other
      cases other with
      | done => exact nomatch same
      | skip _ more =>
          obtain ⟨rfl, rfl⟩ := List.cons.inj same
          exact ih more
      | slot | unclosed => exact absurd ⟨_, same.symm⟩ apart
  | @slot source rest sources span more ih =>
      generalize same : opening ++ (source ++ '}' :: rest) = text at other
      cases other with
      | done => exact nomatch same
      | skip apart _ => exact absurd ⟨_, same⟩ apart
      | @slot source' rest' sources' span' more' =>
          have bodies := List.append_cancel_left same
          rw [← bodies] at span'
          obtain rfl := (List.append_inj' (List.cons.inj (span.eq span')).2 rfl).1
          obtain ⟨_, rfl⟩ := List.cons.inj (List.append_cancel_left bodies)
          rw [ih more']
      | unclosed still _ =>
          obtain rfl := List.append_cancel_left same
          exact absurd span (still _)
  | @unclosed body sources still more ih =>
      generalize same : opening ++ body = text at other
      cases other with
      | done => exact nomatch same
      | skip apart _ => exact absurd ⟨_, same⟩ apart
      | slot span _ =>
          obtain rfl := List.append_cancel_left same
          exact absurd span (still _)
      | unclosed _ more' =>
          obtain rfl := List.append_cancel_left same
          exact ih more'

-----------------------------------------------------------------------------------------
-- Placeholders behind an opening
-----------------------------------------------------------------------------------------

/-- Behind a character that opens nothing stands all that stands in a text. -/
theorem split_of_not_opening {c : Char} {rest before body : List Char}
    (apart : ¬ opening <+: c :: rest) (split : c :: rest = before ++ (opening ++ body))
    : ∃ front, before = c :: front ∧ rest = front ++ (opening ++ body) := by
  cases before with
  | nil => exact absurd ⟨body, split.symm⟩ apart
  | cons d front =>
      obtain ⟨rfl, inside⟩ := List.cons.inj split
      exact ⟨front, rfl, inside⟩

/-- An opening is the first one of a text, or stands behind the first one. -/
theorem split_of_opening {text before body : List Char}
    (split : opening ++ text = before ++ (opening ++ body))
    : (before = [] ∧ text = body)
      ∨ ∃ front, before = opening ++ front ∧ text = front ++ (opening ++ body) := by
  rcases before with _ | ⟨c, _ | ⟨d, front⟩⟩
  · exact Or.inl ⟨rfl, List.append_cancel_left split⟩
  · obtain ⟨_, inside⟩ := List.cons.inj split
    exact absurd (List.cons.inj inside).1 (by decide)
  · obtain ⟨rfl, inside⟩ := List.cons.inj split
    obtain ⟨rfl, rest⟩ := List.cons.inj inside
    exact Or.inr ⟨front, rfl, rest⟩

theorem not_hasPlaceholder_nil : ¬ HasPlaceholder [] := by
  rintro ⟨before, source, rest, split, -⟩
  simp [opening] at split

theorem hasPlaceholder_skip_iff {c : Char} {rest : List Char} (apart : ¬ opening <+: c :: rest)
    : HasPlaceholder (c :: rest) ↔ HasPlaceholder rest := by
  constructor
  · rintro ⟨before, source, after, split, closed⟩
    rw [List.append_assoc, List.append_assoc] at split
    obtain ⟨front, _, inside⟩ := split_of_not_opening apart split
    exact ⟨front, source, after, by simpa using inside, closed⟩
  · rintro ⟨before, source, after, rfl, closed⟩
    exact ⟨c :: before, source, after, rfl, closed⟩

theorem hasPlaceholder_unclosed_iff {body : List Char} (still : Unclosed body)
    : HasPlaceholder (opening ++ body) ↔ HasPlaceholder body := by
  constructor
  · rintro ⟨before, source, after, split, closed⟩
    rw [List.append_assoc, List.append_assoc] at split
    rcases split_of_opening split with ⟨_, rfl⟩ | ⟨front, _, inside⟩
    · exact absurd (shortestBalanced_iff.mpr closed) (still _)
    · exact ⟨front, source, after, by simpa using inside, closed⟩
  · rintro ⟨before, source, after, rfl, closed⟩
    exact ⟨opening ++ before, source, after, by simp, closed⟩

/-- The search finds something exactly in a text with a complete placeholder, by induction on the
search. -/
theorem Finds.ne_nil_iff {sources : List (List Char)} {text : List Char} (h : Finds sources text)
    : sources ≠ [] ↔ HasPlaceholder text := by
  induction h with
  | done => exact iff_of_false (fun some => some rfl) not_hasPlaceholder_nil
  | skip apart _ ih => rw [hasPlaceholder_skip_iff apart, ih]
  | @slot source rest _ span _ _ =>
      refine iff_of_true (List.cons_ne_nil _ _) ?_
      exact ⟨[], source, rest, by simp, shortestBalanced_iff.mp span⟩
  | unclosed still _ ih => rw [hasPlaceholder_unclosed_iff still, ih]

theorem not_hidesPlaceholder_nil : ¬ HidesPlaceholder [] := by
  rintro ⟨before, body, split, -, -⟩
  simp [opening] at split

theorem hidesPlaceholder_skip_iff {c : Char} {rest : List Char} (apart : ¬ opening <+: c :: rest)
    : HidesPlaceholder (c :: rest) ↔ HidesPlaceholder rest := by
  constructor
  · rintro ⟨before, body, split, still, hidden⟩
    obtain ⟨front, _, inside⟩ := split_of_not_opening apart split
    exact ⟨front, body, inside, still, hidden⟩
  · rintro ⟨before, body, rfl, still, hidden⟩
    exact ⟨c :: before, body, rfl, still, hidden⟩

/-- Every opening within a placeholder is closed within it. -/
theorem not_unclosed_within {before body rest : List Char}
    (closed : depth? 0 (before ++ (opening ++ body)) = some 0)
    : ¬ Unclosed (body ++ '}' :: rest) := by
  rw [unclosed_iff, depth?_append]
  rw [depth?_append, Option.bind_eq_some_iff] at closed
  obtain ⟨outside, _, closed⟩ := closed
  have behind : depth? (outside + 1) body = some 0 := closed
  have counted := count_of_depth? behind
  intro still
  cases inner : depth? 0 body with
  | none => rw [inner] at still; exact nomatch still
  | some depth =>
      have few := count_of_depth? inner
      omega

/-- An opening of a text with a placeholder in front is closed, or it stands behind the
placeholder. -/
theorem closed_or_behind {source rest before body : List Char} (closed : depth? 0 source = some 0)
    (split : opening ++ (source ++ '}' :: rest) = before ++ (opening ++ body))
    : ¬ Unclosed body
      ∨ ∃ front,
          before = opening ++ (source ++ '}' :: front) ∧ rest = front ++ (opening ++ body) := by
  rcases split_of_opening split with ⟨_, rfl⟩ | ⟨front, rfl, inside⟩
  · exact Or.inl fun still => still _ (shortestBalanced_iff.mpr closed)
  -- The opening stands within the placeholder, at its end, or behind it.
  · rcases List.append_eq_append_iff.mp inside with ⟨tail, rfl, behind⟩ | ⟨tail, rfl, behind⟩
    · rcases tail with _ | ⟨c, tail⟩
      · exact absurd (List.cons.inj behind).1 (by decide)
      · obtain ⟨rfl, rfl⟩ := List.cons.inj behind
        exact Or.inr ⟨tail, rfl, rfl⟩
    · rcases tail with _ | ⟨c, _ | ⟨d, tail⟩⟩
      · exact absurd (List.cons.inj behind).1 (by decide)
      · obtain ⟨_, brace⟩ := List.cons.inj behind
        exact absurd (List.cons.inj brace).1 (by decide)
      · obtain ⟨rfl, brace⟩ := List.cons.inj behind
        obtain ⟨rfl, rfl⟩ := List.cons.inj brace
        exact Or.inl (not_unclosed_within closed)

/-- What a placeholder holds hides nothing behind the placeholder. -/
theorem hidesPlaceholder_slot_iff {source rest : List Char} (closed : depth? 0 source = some 0)
    : HidesPlaceholder (opening ++ (source ++ '}' :: rest)) ↔ HidesPlaceholder rest := by
  constructor
  · rintro ⟨before, body, split, still, hidden⟩
    rcases closed_or_behind closed split with closes | ⟨front, _, behind⟩
    · exact absurd still closes
    · exact ⟨front, body, behind, still, hidden⟩
  · rintro ⟨before, body, rfl, still, hidden⟩
    exact ⟨opening ++ (source ++ '}' :: before), body, by simp, still, hidden⟩

theorem hidesPlaceholder_unclosed_iff {body : List Char} (still : Unclosed body)
    : HidesPlaceholder (opening ++ body) ↔ HasPlaceholder body := by
  constructor
  · rintro ⟨before, inner, split, _, ⟨first, source, rest, rfl, closed⟩⟩
    rcases split_of_opening split with ⟨_, rfl⟩ | ⟨front, _, rfl⟩
    · exact ⟨first, source, rest, rfl, closed⟩
    · exact ⟨front ++ (opening ++ first), source, rest, by simp, closed⟩
  · exact fun hidden => ⟨[], body, rfl, still, hidden⟩

-----------------------------------------------------------------------------------------
-- What a template has of all placeholders
-----------------------------------------------------------------------------------------

/-- A template has the placeholders up to the first opening that nothing closes, and what the
search finds behind that opening is missing; by induction on the search. -/
theorem Finds.stops {found : List (List Char)} {text : List Char} (h : Finds found text)
    : let sources := (ofChars text).sources.map String.toList
      sources = found
      ∨ ∃ before body missed, text = before ++ (opening ++ body) ∧ Unclosed body
        ∧ Finds missed body ∧ found = sources ++ missed := by
  induction h with
  | done => exact Or.inl (by rw [← map_snd_placeholders, placeholders_of_none rfl]; rfl)
  | @skip found c rest apart _ ih =>
      simp only [sources_skip (after?_opening_eq_none apart)]
      rcases ih with same | ⟨before, body, missed, rfl, still, more, split⟩
      · exact Or.inl same
      · exact Or.inr ⟨c :: before, body, missed, rfl, still, more, split⟩
  | @slot source rest found span _ ih =>
      simp only [sources_slot (shortestBalanced_iff.mp span), List.map_cons, String.toList_ofList]
      rcases ih with same | ⟨before, body, missed, rfl, still, more, split⟩
      · exact Or.inl (congrArg (List.cons source) same)
      · refine Or.inr ⟨opening ++ (source ++ '}' :: before), body, missed, by simp, still, more, ?_⟩
        exact congrArg (List.cons source) split
  | @unclosed body found still more _ =>
      simp only [sources_unclosed (unclosed_iff.mp still), List.map_nil]
      exact Or.inr ⟨[], body, found, rfl, still, more, rfl⟩

/-- A template has all placeholders unless an opening hides one, by induction on the search. -/
theorem Finds.sources_eq_iff {found : List (List Char)} {text : List Char} (h : Finds found text)
    : (ofChars text).sources.map String.toList = found ↔ ¬ HidesPlaceholder text := by
  induction h with
  | done =>
      rw [← map_snd_placeholders, placeholders_of_none rfl]
      exact iff_of_true rfl not_hidesPlaceholder_nil
  | skip apart _ ih =>
      rw [sources_skip (after?_opening_eq_none apart), hidesPlaceholder_skip_iff apart, ih]
  | slot span _ ih =>
      have closed := shortestBalanced_iff.mp span
      rw [sources_slot closed, hidesPlaceholder_slot_iff closed, ← ih, List.map_cons,
        String.toList_ofList, List.cons_inj_right]
  | unclosed still more _ =>
      rw [sources_unclosed (unclosed_iff.mp still), hidesPlaceholder_unclosed_iff still,
        ← more.ne_nil_iff, ne_eq, not_not]
      exact eq_comm

/-- A template has all placeholders of its text up to an opening that nothing closes.
Every text has one list of placeholders: those that a search from left to right finds when it takes
the shortest balanced span behind each opening and passes by the openings without one. The template
of the text has a first part of that list, and what it misses stands behind an opening that nothing
closes. It misses nothing exactly if no complete placeholder stands behind such an opening.
-/
theorem sources_compile_eq_iff (text : String)
    : let sources := (compile text).sources.map String.toList
      ∃ found,
        Finds found text.toList
        ∧ (∀ other, Finds other text.toList → other = found)
        ∧ (sources = found
          ∨ ∃ before body missed, text.toList = before ++ (opening ++ body) ∧ Unclosed body
            ∧ Finds missed body ∧ found = sources ++ missed)
        ∧ (sources = found ↔ ¬ HidesPlaceholder text.toList) := by
  obtain ⟨found, search⟩ := exists_finds text.toList
  exact ⟨found, search, fun _ other => other.eq search, search.stops, search.sources_eq_iff⟩

/-- An opening that nothing closes hides the placeholder behind it. -/
theorem sources_compile_hidden
    : Finds [['b']] "@\x7ba @\x7bb\x7d".toList ∧ (compile "@\x7ba @\x7bb\x7d").sources = [] := by
  refine ⟨?_, by decide +kernel⟩
  have behind : Finds [['b']] (opening ++ (['b'] ++ '}' :: [])) :=
    .slot (shortestBalanced_iff.mpr rfl) .done
  exact .unclosed (unclosed_iff.mpr rfl) (.skip (by decide) (.skip (by decide) behind))

end QuizVariants.Template
