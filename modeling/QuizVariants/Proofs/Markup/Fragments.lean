import Mathlib.Data.List.Basic
import QuizVariants.Markup.Sigil
import QuizVariants.Proofs.Markup.Cleanup
import QuizVariants.Proofs.Text.Bare

/-! Lines of text and references.
A line is made of text without markup and of references to parameters. The dialects write a
reference with different sigils, and the cleanup of tagged text leads from one to the other.
-/

namespace QuizVariants.Markup

open QuizVariants.Text

/-- The characters that mean something in a source: those that end a line, start a comment, belong
to a tag, to a command, to a reference or to a string, or are escaped in one. -/
def specialCharacters : List Char :=
  ['\n', '\t', '#', '<', '>', '\\', '$', '@', '{', '}', '"', '\'']

/-- A text that stands for itself in a source of either dialect. -/
structure PlainText where
  text : List Char
  plain : ∀ c ∈ text, c ∉ specialCharacters

/-- The plain text of a string none of whose characters is special. -/
def PlainText.ofString (text : String)
    (plain : text.toList.all (fun c => !specialCharacters.contains c) = true)
    : PlainText where
  text := text.toList
  plain c member special := by simpa [special] using List.all_eq_true.mp plain c member

/-- A part of a line: text, or a reference to a parameter. -/
inductive Fragment where
  | plain (text : PlainText)
  | reference (name : List Char) (named : isName name = true)

namespace Fragment

/-- A fragment as it is written with the sigil of a dialect. -/
def write (sigil : Char) : Fragment → List Char
  | .plain text => text.text
  | .reference name _ => sigil :: '{' :: (name ++ ['}'])

end Fragment

/-- Fragments as they are written one after the other. -/
def write (sigil : Char) (fragments : List Fragment) : List Char :=
  fragments.flatMap (Fragment.write sigil)

/-- A line of fragments without blanks at its ends. -/
structure Line where
  fragments : List Fragment
  trimmed : Trimmed (write '@' fragments)

/-- A line as it is written with the sigil of a dialect. -/
def Line.text (sigil : Char) (line : Line) : List Char :=
  write sigil line.fragments

/-- A line as it is displayed. -/
def Line.shown (line : Line) : String :=
  .ofList (line.text '@')

-----------------------------------------------------------------------------------------
-- Characters of a line
-----------------------------------------------------------------------------------------

theorem PlainText.not_mem (text : PlainText) {c : Char} (special : c ∈ specialCharacters)
    : c ∉ text.text :=
  fun member => text.plain c member special

/-- A name has no characters that mean something else. -/
theorem not_mem_of_isName {name : List Char} (named : isName name = true) {c : Char}
    (special : c ∈ specialCharacters)
    : c ∉ name := by
  intro member
  have other : specialCharacters.all (fun c => !continuesName c) = true := by decide
  have stops := List.all_eq_true.mp other c special
  rw [continuesName_of_isName named c member] at stops
  exact nomatch stops

/-- Of the special characters a line has its sigil and braces only. -/
theorem not_mem_write {sigil c : Char} (special : c ∈ specialCharacters)
    (other : c ∉ [sigil, '{', '}']) (fragments : List Fragment)
    : c ∉ write sigil fragments := by
  simp only [List.mem_cons, List.not_mem_nil, or_false, not_or] at other
  intro member
  obtain ⟨fragment, _, inside⟩ := List.mem_flatMap.mp member
  cases fragment with
  | plain text => exact text.not_mem special inside
  | reference name named =>
      have apart := not_mem_of_isName named special
      simp [Fragment.write, other, apart] at inside

theorem Line.not_mem {sigil c : Char} (line : Line) (special : c ∈ specialCharacters)
    (other : c ∉ [sigil, '{', '}'])
    : c ∉ line.text sigil :=
  not_mem_write special other line.fragments

/-- A line differs in its sigils only. -/
def withSigil (sigil c : Char) : Char :=
  if c = '@' then sigil else c

theorem write_eq_map (sigil : Char) (fragments : List Fragment)
    : write sigil fragments = (write '@' fragments).map (withSigil sigil) := by
  have same {text : List Char} (h : '@' ∉ text) : text.map (withSigil sigil) = text := by
    have each : text.map (withSigil sigil) = text.map id := by
      refine List.map_congr_left (fun c member => if_neg ?_)
      rintro rfl
      exact h member
    rw [each, List.map_id]
  rw [write, write, List.map_flatMap]
  refine List.flatMap_congr (fun fragment _ => ?_)
  cases fragment with
  | plain text => exact (same (text.not_mem (by decide))).symm
  | reference name named =>
      have apart := same (not_mem_of_isName named (c := '@') (by decide))
      simp [Fragment.write, apart, withSigil]

/-- A line has no blanks at its ends in either dialect. -/
theorem Line.trimmed_text {sigil : Char} (shows : isBlank sigil = false) (line : Line)
    : Trimmed (line.text sigil) := by
  have blank (c : Char) (h : isBlank c = false) : isBlank (withSigil sigil c) = false := by
    unfold withSigil
    split
    · exact shows
    · exact h
  obtain ⟨first, last⟩ := trimmed_iff.mp line.trimmed
  rw [Line.text, write_eq_map]
  refine trimmed_iff.mpr ⟨fun c start => ?_, fun c ending => ?_⟩
  · rw [List.head?_map, Option.map_eq_some_iff] at start
    obtain ⟨d, start, rfl⟩ := start
    exact blank d (first d start)
  · rw [List.getLast?_map, Option.map_eq_some_iff] at ending
    obtain ⟨d, ending, rfl⟩ := ending
    exact blank d (last d ending)

-----------------------------------------------------------------------------------------
-- References in braces become placeholders
-----------------------------------------------------------------------------------------

/-- A word is read up to a character that is no part of one. -/
theorem word?_append {name rest : List Char} (some : name ≠ [])
    (word : ∀ c ∈ name, isWord c = true) (stops : Stops isWord rest)
    : word? (name ++ rest) = .some (name, rest) := by
  have run := takeWhile_append_of_stops word stops
  have behind := dropWhile_append_of_stops word stops
  simp [word?, run, behind, some]

/-- A name in braces is the reference to itself. -/
theorem bracedReference?_name {name : List Char} (named : isName name = true)
    : bracedReference? name = some name := by
  have word : ∀ c ∈ name, isWord c = true :=
    fun c member => isWord_of_continuesName (continuesName_of_isName named c member)
  have some : name ≠ [] := by
    rintro rfl
    exact nomatch named
  have whole := word?_append some word (stops_nil isWord)
  rw [List.append_nil] at whole
  have reference : reference? name = .some (name, []) := by
    have none : closing? [] = .none := rfl
    simp only [reference?, whole, Option.bind_eq_bind, Option.bind_some, optional, none,
      Option.getD_none, List.append_nil]
  rw [bracedReference?, reference]

theorem bracedSigil_reference {name : List Char} (named : isName name = true) (rest : List Char)
    : bracedSigil ['@', '{'] ['}'] (Fragment.write '$' (.reference name named) ++ rest)
        = some (Fragment.write '@' (.reference name named), rest) := by
  have inside : breakOn ['}'] (name ++ '}' :: rest) = some (name, rest) :=
    breakOn_append (not_mem_of_isName named (by decide)) [] rest
  have whole : Fragment.write '$' (.reference name named) ++ rest
      = '$' :: '{' :: (name ++ '}' :: rest) := by
    simp [Fragment.write]
  rw [whole, bracedSigil, inside]
  simp [bracedReference?_name named, Fragment.write]

/-- Every reference of a line becomes a placeholder, by induction on the fragments. -/
theorem replaceAll_bracedSigil (fragments : List Fragment)
    : replaceAll (bracedSigil ['@', '{'] ['}']) (write '$' fragments) = write '@' fragments := by
  induction fragments with
  | nil => rw [write, List.flatMap_nil, replaceAll]; rfl
  | cons fragment rest ih =>
      rw [write, List.flatMap_cons]
      change replaceAll _ (fragment.write '$' ++ write '$' rest)
        = fragment.write '@' ++ write '@' rest
      cases fragment with
      | plain text =>
          have unmatched : ∀ c ∈ text.text, ∀ behind,
              bracedSigil ['@', '{'] ['}'] (c :: behind) = none := by
            intro c member behind
            have other : c ≠ '$' := fun same => text.not_mem (by decide) (same ▸ member)
            unfold bracedSigil
            split
            · next same => exact absurd (List.cons.inj same).1 other
            · rfl
          exact (replaceAll_append_of_unmatched unmatched _).trans (congrArg _ ih)
      | reference name named =>
          have shorter : (write '$' rest).length
              < (Fragment.write '$' (.reference name named) ++ write '$' rest).length := by
            simp only [Fragment.write, List.length_append, List.length_cons]
            omega
          rw [replaceAll_of_some (bracedSigil_reference named _) shorter, ih]

-----------------------------------------------------------------------------------------
-- The cleanup of tagged text
-----------------------------------------------------------------------------------------

/-- The rules for tags match only at angle brackets. -/
theorem replaceAll_tag {rule : List Char → Option (List Char × List Char)}
    (h : rule ∈ sigilRules.take 2 ++ sigilRules.drop 4) {text : List Char} (angle : '<' ∉ text)
    : replaceAll rule text = text := by
  refine replaceAll_of_unmatched (fun c member rest => ?_)
  have unopened (pattern : List Char) : after? ('<' :: pattern) (c :: rest) = none := by
    refine after?_eq_none (fun start => angle ?_) pattern
    exact Option.some.inj start ▸ member
  simp only [sigilRules, List.take, List.drop, List.cons_append, List.nil_append, List.mem_cons,
    List.not_mem_nil, or_false] at h
  rcases h with rfl | rfl | rfl | rfl | rfl
  · simp [inlineEquation, equationOpening?, unopened]
  · simp [taggedEquation, equationOpening?, unopened]
  all_goals simp [literalRule, unopened]

/-- The rule for references without braces matches only at dollars. -/
theorem replaceAll_bareSigil {text : List Char} (dollar : '$' ∉ text)
    : replaceAll (bareSigil ['@', '{'] ['}']) text = text := by
  refine replaceAll_of_unmatched (fun c member rest => ?_)
  unfold bareSigil
  split
  · next same => exact absurd ((List.cons.inj same).1 ▸ member) dollar
  · rfl

/-- Text without tags and commands is changed by the two rules for references alone. -/
theorem cleanTagged_of_untagged {text braced bare : List Char} (trimmed : Trimmed text)
    (tagged : '<' ∉ text)
    (first : replaceAll (bracedSigil ['@', '{'] ['}']) text = braced)
    (second : replaceAll (bareSigil ['@', '{'] ['}']) braced = bare)
    (slash : '\\' ∉ bare) (angle : '<' ∉ bare)
    : cleanTagged text = bare := by
  have before : ∀ rule ∈ sigilRules.take 2, replaceAll rule text = text :=
    fun rule member => replaceAll_tag (List.mem_append_left _ member) tagged
  have behind : ∀ rule ∈ sigilRules.drop 4, replaceAll rule bare = bare :=
    fun rule member => replaceAll_tag (List.mem_append_right _ member) angle
  have between : sigilRules.drop 2
      = bracedSigil ['@', '{'] ['}'] :: bareSigil ['@', '{'] ['}'] :: sigilRules.drop 4 :=
    rfl
  rw [cleanTagged, show trim text = text from trimmed, ← List.take_append_drop 2 sigilRules,
    List.foldl_append, foldl_replaceAll_of_unchanged before, between, List.foldl_cons,
    List.foldl_cons, first, second, foldl_replaceAll_of_unchanged behind,
    clean_of_plain slash angle]

/-- Tagged text of a line becomes the text of the line. -/
theorem cleanTagged_text (line : Line) : cleanTagged (line.text '$') = line.text '@' := by
  have dollar : '$' ∉ line.text '@' := line.not_mem (by decide) (by decide)
  exact cleanTagged_of_untagged (line.trimmed_text (by decide))
    (line.not_mem (by decide) (by decide)) (replaceAll_bracedSigil line.fragments)
    (replaceAll_bareSigil dollar) (line.not_mem (by decide) (by decide))
    (line.not_mem (by decide) (by decide))

end QuizVariants.Markup
