import QuizVariants.Proofs.Template.Braces
import QuizVariants.Proofs.Text.Marks

/-! The search for placeholders.
A template lists the placeholders of its text from left to right. The search is described as a
relation on the text itself: it passes characters by, it takes placeholders, and it ends with the
text or in a placeholder that nothing closes. The same relation describes a text in which a tag has
come into a placeholder, which is then another one or none.
-/

namespace QuizVariants.Template

open QuizVariants.Text

-----------------------------------------------------------------------------------------
-- The placeholders of a template
-----------------------------------------------------------------------------------------

/-- The placeholders of a template, each behind the text directly in front of it. -/
def placeholders : Template → List (String × String)
  | [] => []
  | .slot slot :: rest => ("", slot.source) :: placeholders rest
  | .literal text :: .slot slot :: rest => (text, slot.source) :: placeholders rest
  | .literal _ :: rest => placeholders rest

/-- The placeholders of a template as their author wrote them. -/
def sources (template : Template) : List String :=
  template.filterMap (fun piece =>
    match piece with
    | .literal _ => none
    | .slot slot => some slot.source)

theorem map_snd_placeholders (template : Template)
    : template.placeholders.map Prod.snd = template.sources := by
  induction template using placeholders.induct with
  | case1 => rfl
  | case2 slot rest ih => rw [placeholders, List.map_cons, ih]; rfl
  | case3 text slot rest ih => rw [placeholders, List.map_cons, ih]; rfl
  | case4 text rest other ih => rw [placeholders.eq_4 _ _ other, ih]; rfl

theorem firstSlot?_skip {c : Char} {rest : List Char} (h : after? opening (c :: rest) = none)
    : firstSlot? (c :: rest)
        = (firstSlot? rest).map (fun found => (c :: found.1, found.2)) := by
  rw [firstSlot?, firstSlot?, breakOn, h]
  cases breakOn opening rest with
  | none => rfl
  | some split => cases closed : closeBrace? 0 split.2 <;> simp [closed]

theorem firstSlot?_opening (body : List Char)
    : firstSlot? (opening ++ body)
        = (closeBrace? 0 body).map (fun split => ([], split.1, split.2)) := by
  have opened : breakOn opening (opening ++ body) = some ([], body) := rfl
  rw [firstSlot?, opened]
  cases closed : closeBrace? 0 body <;> simp [closed]

theorem ofChars_of_none {text : List Char} (h : firstSlot? text = none)
    : ofChars text = literal text := by
  rw [ofChars]
  split
  · rfl
  · next found => cases h.symm.trans found

theorem ofChars_of_some {text before source rest : List Char}
    (h : firstSlot? text = some (before, source, rest))
    : ofChars text = literal before ++ .slot { source := .ofList source } :: ofChars rest := by
  rw [ofChars]
  split
  · next found => cases h.symm.trans found
  · next found =>
    obtain ⟨rfl, same⟩ := Prod.mk.inj (Option.some.inj (h.symm.trans found))
    obtain ⟨rfl, rfl⟩ := Prod.mk.inj same
    rfl

theorem placeholders_of_none {text : List Char} (h : firstSlot? text = none)
    : (ofChars text).placeholders = [] := by
  rw [ofChars_of_none h, literal]
  split <;> rfl

theorem placeholders_of_some {text before source rest : List Char}
    (h : firstSlot? text = some (before, source, rest))
    : (ofChars text).placeholders
        = (.ofList before, .ofList source) :: (ofChars rest).placeholders := by
  rw [ofChars_of_some h]
  cases before with
  | nil => rfl
  | cons c before => rfl

/-- A character that opens no placeholder only stands in front of the first one. -/
theorem placeholders_skip {c : Char} {rest : List Char} (h : after? opening (c :: rest) = none)
    : (ofChars (c :: rest)).placeholders
        = match firstSlot? rest with
          | none => []
          | some (before, source, rest) =>
            (.ofList (c :: before), .ofList source) :: (ofChars rest).placeholders := by
  have skipped := firstSlot?_skip h
  cases found : firstSlot? rest with
  | none =>
      rw [found] at skipped
      exact placeholders_of_none skipped
  | some slot =>
      rw [found] at skipped
      exact placeholders_of_some skipped

theorem placeholders_slot {source : List Char} (closed : depth? 0 source = some 0)
    (rest : List Char)
    : (ofChars (opening ++ (source ++ '}' :: rest))).placeholders
        = ("", .ofList source) :: (ofChars rest).placeholders := by
  refine @placeholders_of_some _ [] _ _ ?_
  rw [firstSlot?_opening, closeBrace?_append closed]
  rfl

theorem placeholders_unclosed {body : List Char} (h : (depth? 0 body).isSome)
    : (ofChars (opening ++ body)).placeholders = [] := by
  refine placeholders_of_none ?_
  rw [firstSlot?_opening, closeBrace?_eq_none_iff.mpr h]
  rfl

theorem sources_skip {c : Char} {rest : List Char} (h : after? opening (c :: rest) = none)
    : (ofChars (c :: rest)).sources = (ofChars rest).sources := by
  rw [← map_snd_placeholders, ← map_snd_placeholders, placeholders_skip h]
  cases found : firstSlot? rest with
  | none => rw [placeholders_of_none found]
  | some slot => rw [placeholders_of_some found]; rfl

theorem sources_slot {source : List Char} (closed : depth? 0 source = some 0) (rest : List Char)
    : (ofChars (opening ++ (source ++ '}' :: rest))).sources
        = .ofList source :: (ofChars rest).sources := by
  rw [← map_snd_placeholders, placeholders_slot closed, List.map_cons, map_snd_placeholders]

theorem sources_unclosed {body : List Char} (h : (depth? 0 body).isSome)
    : (ofChars (opening ++ body)).sources = [] := by
  rw [← map_snd_placeholders, placeholders_unclosed h, List.map_nil]

/-- A text in which neither a backslash nor an angle bracket starts markup. -/
def Untagged (text : List Char) : Prop :=
  '\\' ∉ text ∧ '<' ∉ text

theorem untagged_nil : Untagged [] :=
  ⟨List.not_mem_nil, List.not_mem_nil⟩

theorem untagged_append {first second : List Char}
    : Untagged (first ++ second) ↔ Untagged first ∧ Untagged second := by
  simp only [Untagged, List.mem_append, not_or]
  exact and_and_and_comm

-----------------------------------------------------------------------------------------
-- The search on the text itself
-----------------------------------------------------------------------------------------

/-- How the search runs over a text in which it should find placeholders with some sources. It
finds them all, or it comes to a placeholder that is broken by the start of a tag. -/
inductive Scan : (broken : Bool) → (sources : List (List Char)) → List Char → Prop where
  | done : Scan false [] []
  | unclosed {body : List Char} (still : (depth? 0 body).isSome) : Scan false [] (opening ++ body)
  | broken {source start rest : List Char} {sources : List (List Char)} (untagged : Untagged start)
    (inside : '}' ∉ start) : Scan true (source :: sources) (opening ++ (start ++ '<' :: rest))
  | skip {broken : Bool} {sources : List (List Char)} {c : Char} {rest : List Char}
    (apart : after? opening (c :: rest) = none) (more : Scan broken sources rest)
    : Scan broken sources (c :: rest)
  | slot {broken : Bool} {source rest : List Char} {sources : List (List Char)}
    (closed : depth? 0 source = some 0) (more : Scan broken sources rest)
    : Scan broken (source :: sources) (opening ++ (source ++ '}' :: rest))

/-- Every text is searched to its end, by induction on its length. -/
theorem scan_sources (text : List Char)
    : Scan false ((ofChars text).sources.map String.toList) text := by
  match text with
  | [] =>
      have empty : (ofChars []).sources = [] := by
        rw [← map_snd_placeholders, placeholders_of_none rfl, List.map_nil]
      rw [empty]
      exact .done
  | c :: rest =>
      cases opened : after? opening (c :: rest) with
      | none =>
          rw [sources_skip opened]
          exact .skip opened (scan_sources rest)
      | some body =>
          have whole : c :: rest = opening ++ body := after?_eq_some_iff.mp opened
          rw [whole]
          rcases closeBrace?_cases 0 body with ⟨source, after, rfl, closed⟩ | ⟨_, still⟩
          · have shorter : after.length ≤ rest.length := by
              have lengths := congrArg List.length whole
              simp only [List.length_append, List.length_cons, opening] at lengths
              omega
            rw [sources_slot closed, List.map_cons, String.toList_ofList]
            exact .slot closed (scan_sources after)
          · rw [sources_unclosed still]
            exact .unclosed still
termination_by text.length

/-- A search that runs to the end finds the placeholders of the text, by induction on it. -/
theorem Scan.sources_eq {found : List (List Char)} {text : List Char} (h : Scan false found text)
    : (ofChars text).sources = found.map String.ofList := by
  generalize whole : false = broken at h
  induction h with
  | done => rw [← map_snd_placeholders, placeholders_of_none rfl]; rfl
  | unclosed still => exact sources_unclosed still
  | broken untagged inside => exact nomatch whole
  | skip apart more ih => exact (sources_skip apart).trans (ih whole)
  | slot closed more ih => rw [sources_slot closed, ih whole, List.map_cons]

/-- A search that comes to a broken placeholder finds other placeholders than it should, by
induction on it. -/
theorem Scan.sources_ne {found : List (List Char)} {text : List Char} (h : Scan true found text)
    (untagged : ∀ source ∈ found, Untagged source)
    : (ofChars text).sources ≠ found.map String.ofList := by
  generalize lost : true = broken at h
  induction h with
  | done | unclosed => exact nomatch lost
  | @broken source start rest sources _ inside =>
      -- Whatever closes the placeholder stands behind the tag, which is then part of it.
      rcases closeBrace?_cases 0 (start ++ '<' :: rest) with ⟨inner, after, split, closed⟩
        | ⟨_, still⟩
      · rw [split, sources_slot closed]
        intro same
        obtain ⟨first, _⟩ := List.cons.inj same
        obtain rfl := String.ofList_injective first
        obtain ⟨_, same, _⟩ := append_cons_inj split inside (untagged _ List.mem_cons_self).2
        exact absurd same (by decide)
      · rw [sources_unclosed still]
        exact nofun
  | skip apart more ih => exact fun same => ih untagged lost ((sources_skip apart).symm.trans same)
  | slot closed more ih =>
      obtain ⟨_, others⟩ := List.forall_mem_cons.mp untagged
      rw [sources_slot closed, List.map_cons]
      exact fun same => ih others lost (List.cons.inj same).2

-----------------------------------------------------------------------------------------
-- Text that the search passes by
-----------------------------------------------------------------------------------------

/-- A placeholder opens only at an at sign in front of a brace. -/
theorem after?_opening_eq_none_iff {c : Char} {rest : List Char}
    : after? opening (c :: rest) = none ↔ ¬ (c = '@' ∧ rest.head? = some '{') := by
  rw [Option.eq_none_iff_forall_ne_some]
  simp only [ne_eq, after?_eq_some_iff, opening, List.cons_append, List.nil_append, List.cons.injEq]
  cases rest <;> simp

/-- The search passes by a character that opens no placeholder. -/
theorem scan_skip_iff {broken : Bool} {found : List (List Char)} {c : Char} {rest : List Char}
    (apart : after? opening (c :: rest) = none)
    : Scan broken found (c :: rest) ↔ Scan broken found rest := by
  refine ⟨fun h => ?_, .skip apart⟩
  generalize same : c :: rest = text at h
  cases h with
  | done => exact nomatch same
  | skip _ more =>
      obtain ⟨rfl, rfl⟩ := List.cons.inj same
      exact more
  | unclosed | broken | slot => exact nomatch apart.symm.trans (after?_eq_some_iff.mpr same)

/-- What the search finds at the opening of a placeholder. -/
theorem scan_opening_cases {broken : Bool} {found : List (List Char)} {body : List Char}
    (h : Scan broken found (opening ++ body))
    : (broken = false ∧ found = [] ∧ (depth? 0 body).isSome)
      ∨ (broken = true ∧ found ≠ []
        ∧ ∃ start rest, body = start ++ '<' :: rest ∧ Untagged start ∧ '}' ∉ start)
      ∨ ∃ source rest others, found = source :: others ∧ body = source ++ '}' :: rest
        ∧ depth? 0 source = some 0 ∧ Scan broken others rest := by
  generalize same : opening ++ body = text at h
  cases h with
  | done => exact nomatch same
  | skip apart _ => exact nomatch apart.symm.trans (after?_eq_some_iff.mpr same.symm)
  | unclosed still =>
      obtain rfl := List.append_cancel_left same
      exact Or.inl ⟨rfl, rfl, still⟩
  | broken untagged inside =>
      obtain rfl := List.append_cancel_left same
      exact Or.inr (Or.inl ⟨rfl, List.cons_ne_nil _ _, _, _, rfl, untagged, inside⟩)
  | slot closed more =>
      obtain rfl := List.append_cancel_left same
      exact Or.inr (Or.inr ⟨_, _, _, rfl, rfl, closed, more⟩)

/-- A text in which no placeholder opens, whatever stands behind it. -/
def NoOpening (text : List Char) : Prop :=
  breakOn opening text = none

theorem noOpening_cons_iff {c : Char} {rest : List Char}
    : NoOpening (c :: rest) ↔ after? opening (c :: rest) = none ∧ NoOpening rest := by
  rw [NoOpening, breakOn]
  cases after? opening (c :: rest) <;> simp [NoOpening]

/-- No placeholder opens in a text without at signs, by induction on it. -/
theorem NoOpening.append_of_not_mem {front text : List Char} (h : NoOpening text)
    (fresh : '@' ∉ front)
    : NoOpening (front ++ text) := by
  induction front with
  | nil => exact h
  | cons c front ih =>
      obtain ⟨first, others⟩ := not_or.mp (fun member => fresh (List.mem_cons.mpr member))
      exact noOpening_cons_iff.mpr
        ⟨after?_opening_eq_none_iff.mpr (fun opens => first opens.1.symm), ih others⟩

/-- No opening comes about where a text goes on in another one: there is no at sign in front of a
brace. -/
def JoinsApart (text behind : List Char) : Prop :=
  text.getLast? = some '@' → behind.head? ≠ some '{'

theorem JoinsApart.of_append {front text behind : List Char} (h : JoinsApart (front ++ text) behind)
    : JoinsApart text behind := by
  refine fun last => h ?_
  rw [List.getLast?_append, last, Option.some_or]

/-- A character of a text without an opening opens nothing, whatever the text goes on with apart
from it. -/
theorem NoOpening.after?_eq_none {c : Char} {rest behind : List Char} (h : NoOpening (c :: rest))
    (apart : JoinsApart (c :: rest) behind)
    : after? opening (c :: (rest ++ behind)) = none := by
  rw [after?_opening_eq_none_iff]
  rintro ⟨rfl, brace⟩
  cases rest with
  | nil => exact apart rfl brace
  | cons d rest => exact after?_opening_eq_none_iff.mp (noOpening_cons_iff.mp h).1 ⟨rfl, brace⟩

/-- The search passes by a text without an opening, by induction on it. -/
theorem scan_append_iff {broken : Bool} {found : List (List Char)} {text behind : List Char}
    (h : NoOpening text) (apart : behind.head? ≠ some '{')
    : Scan broken found (text ++ behind) ↔ Scan broken found behind := by
  induction text with
  | nil => rfl
  | cons c rest ih =>
      exact (scan_skip_iff (h.after?_eq_none fun _ => apart)).trans (ih (noOpening_cons_iff.mp h).2)

/-- The search passes by a text without at signs, whatever stands behind it; by induction on the
text. -/
theorem scan_append_of_not_mem {broken : Bool} {found : List (List Char)} {text : List Char}
    (h : '@' ∉ text) (behind : List Char)
    : Scan broken found (text ++ behind) ↔ Scan broken found behind := by
  induction text with
  | nil => rfl
  | cons c rest ih =>
      obtain ⟨first, others⟩ := not_or.mp (fun member => h (List.mem_cons.mpr member))
      have apart : after? opening (c :: (rest ++ behind)) = none :=
        after?_opening_eq_none_iff.mpr (fun opens => first opens.1.symm)
      exact (scan_skip_iff apart).trans (ih others)

theorem firstSlot?_append {text behind : List Char} (h : NoOpening text)
    (apart : JoinsApart text behind)
    : firstSlot? (text ++ behind)
        = (firstSlot? behind).map (fun found => (text ++ found.1, found.2)) := by
  induction text with
  | nil => exact Option.map_id'.symm
  | cons c rest ih =>
      have joins : JoinsApart rest behind := @JoinsApart.of_append [c] _ _ apart
      rw [List.cons_append, firstSlot?_skip (h.after?_eq_none apart),
        ih (noOpening_cons_iff.mp h).2 joins, Option.map_map]
      rfl

/-- The first opening of a text stands behind a text without one, by induction on the text. -/
theorem noOpening_of_breakOn {text before behind : List Char}
    (h : breakOn opening text = some (before, behind))
    : NoOpening before := by
  induction text generalizing before behind with
  | nil => cases h
  | cons c text ih =>
      rw [breakOn] at h
      cases opens : after? opening (c :: text) with
      | some rest =>
          rw [opens] at h
          obtain ⟨rfl, _⟩ := Prod.mk.inj (Option.some.inj h)
          rfl
      | none =>
          rw [opens] at h
          obtain ⟨⟨front, rest⟩, found, same⟩ := Option.map_eq_some_iff.mp h
          obtain ⟨rfl, _⟩ := Prod.mk.inj same
          refine noOpening_cons_iff.mpr ⟨after?_opening_eq_none_iff.mpr ?_, ih found⟩
          rintro ⟨rfl, brace⟩
          rw [after?_opening_eq_none_iff, ← append_of_breakOn found] at opens
          refine opens ⟨rfl, ?_⟩
          cases front with
          | nil => cases brace
          | cons d front => exact brace

-----------------------------------------------------------------------------------------
-- Texts that stand in for others
-----------------------------------------------------------------------------------------

/-- A text that can stand in for the end of another one where no placeholder goes on into it. -/
structure StandsIn (old new : List Char) : Prop where
  scan : ∀ {broken found}, (∀ source ∈ found, Untagged source) → Scan broken found old →
    Scan broken found new
  depth : ∀ {depth}, (depth? depth old).isSome → (depth? depth new).isSome
  oldApart : old.head? ≠ some '{'
  newApart : new.head? ≠ some '{'
  barred : ∀ {inner rest}, old = inner ++ '}' :: rest → ¬ Untagged inner
  tagged : ∀ {start rest}, old = start ++ '<' :: rest → Untagged start → ∃ more, new = '<' :: more

/-- Whatever of an opening stands in front of a text that opens no brace is all of it. -/
theorem opening_append_eq {body front behind : List Char} (same : opening ++ body = front ++ behind)
    (apart : behind.head? ≠ some '{')
    : front = [] ∨ ∃ inside, front = opening ++ inside ∧ body = inside ++ behind := by
  rcases front with _ | ⟨c, _ | ⟨d, inside⟩⟩
  · exact Or.inl rfl
  · obtain ⟨_, brace⟩ : '@' = c ∧ '{' :: body = behind := List.cons.inj same
    exact absurd (congrArg List.head? brace.symm) apart
  · obtain ⟨rfl, rest⟩ : '@' = c ∧ '{' :: body = d :: (inside ++ behind) := List.cons.inj same
    obtain ⟨rfl, rfl⟩ := List.cons.inj rest
    exact Or.inr ⟨inside, rfl, rfl⟩

theorem StandsIn.depth_append {old new : List Char} (r : StandsIn old new) {depth : Nat}
    {front : List Char} (h : (depth? depth (front ++ old)).isSome)
    : (depth? depth (front ++ new)).isSome := by
  rw [depth?_append] at h ⊢
  cases left : depth? depth front with
  | none => rw [left] at h; exact nomatch h
  | some depth => rw [left] at h; exact r.depth h

/-- The search runs on over a text that stands in for the end of another one, by induction on the
search. -/
theorem Scan.standIn {broken : Bool} {found : List (List Char)} {front old new : List Char}
    (h : Scan broken found (front ++ old)) (untagged : ∀ source ∈ found, Untagged source)
    (r : StandsIn old new)
    : Scan broken found (front ++ new) := by
  generalize same : front ++ old = text at h
  induction h generalizing front with
  | done =>
      obtain ⟨rfl, rfl⟩ := List.append_eq_nil_iff.mp same
      exact r.scan untagged .done
  | @skip broken found c rest apart more ih =>
      cases front with
      | nil =>
          obtain rfl : old = c :: rest := same
          exact r.scan untagged (.skip apart more)
      | cons d front =>
          obtain ⟨rfl, rfl⟩ := List.cons.inj same
          refine .skip ?_ (ih untagged rfl)
          rw [after?_opening_eq_none_iff] at apart ⊢
          rintro ⟨rfl, brace⟩
          cases front with
          | nil => exact r.newApart brace
          | cons e front => exact apart ⟨rfl, brace⟩
  | @unclosed body still =>
      rcases opening_append_eq same.symm r.oldApart with rfl | ⟨inside, rfl, rfl⟩
      · obtain rfl : old = _ := same
        exact r.scan untagged (.unclosed still)
      · rw [List.append_assoc]
        exact .unclosed (r.depth_append still)
  | @broken source start rest others clean inside =>
      rcases opening_append_eq same.symm r.oldApart with rfl | ⟨front, rfl, split⟩
      · obtain rfl : old = _ := same
        exact r.scan untagged (.broken clean inside)
      · rw [List.append_assoc]
        -- The tag that breaks the placeholder stands in front of the end, or starts it.
        rcases List.append_eq_append_iff.mp split with ⟨tail, rfl, behind⟩ | ⟨tail, rfl, behind⟩
        · cases tail with
          | nil =>
              obtain ⟨more, rfl⟩ := @StandsIn.tagged _ _ r [] rest behind.symm untagged_nil
              rw [List.append_nil]
              exact .broken clean inside
          | cons c tail =>
              obtain ⟨rfl, _⟩ := List.cons.inj behind
              rw [List.append_assoc]
              exact .broken clean inside
        · obtain ⟨before, after⟩ := untagged_append.mp clean
          obtain ⟨more, rfl⟩ := r.tagged behind after
          exact .broken before (fun member => inside (List.mem_append_left _ member))
  | @slot broken source rest others closed more ih =>
      rcases opening_append_eq same.symm r.oldApart with rfl | ⟨front, rfl, split⟩
      · obtain rfl : old = _ := same
        exact r.scan untagged (.slot closed more)
      · rw [List.append_assoc]
        obtain ⟨clean, others⟩ := List.forall_mem_cons.mp untagged
        -- The placeholder ends in front of the end, which no brace closes from within.
        rcases List.append_eq_append_iff.mp split with ⟨tail, rfl, behind⟩ | ⟨tail, rfl, behind⟩
        · cases tail with
          | nil => exact absurd untagged_nil (r.barred behind.symm)
          | cons c tail =>
              obtain ⟨rfl, rfl⟩ := List.cons.inj behind
              rw [List.append_assoc]
              exact .slot closed (ih others rfl)
        · exact absurd (untagged_append.mp clean).2 (r.barred behind)

end QuizVariants.Template
