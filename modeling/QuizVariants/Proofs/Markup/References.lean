import QuizVariants.Proofs.Markup.Fragments

/-! References without braces.
In tagged text a dollar and the word behind it refer to a parameter and become a placeholder. An
index may have a dollar of its own, and a reader that takes it for optional everywhere takes the
dollar of a second reference that follows directly.
-/

namespace QuizVariants.Markup

open QuizVariants.Text

/-- The characters that start markup or belong to a placeholder. -/
def markupCharacters : List Char :=
  ['$', '@', '\\', '<', '{', '}']

/-- A text that stands for itself in tagged text. -/
structure Unmarked where
  text : List Char
  plain : ∀ c ∈ text, c ∉ markupCharacters

/-- A word that can be referred to. -/
structure ReferenceName where
  text : List Char
  some : text ≠ []
  word : ∀ c ∈ text, isWord c = true

/-- A piece of tagged text: text without markup, or a reference without braces. -/
inductive Piece where
  | plain (text : Unmarked)
  | reference (name : ReferenceName)

namespace Piece

def written : Piece → List Char
  | .plain text => text.text
  | .reference name => '$' :: name.text

def shown : Piece → List Char
  | .plain text => text.text
  | .reference name => placeholder name.text

end Piece

/-- Pieces as they are written one after the other. -/
def writtenPieces (pieces : List Piece) : List Char :=
  pieces.flatMap Piece.written

/-- Pieces as they are shown, each reference as a placeholder. -/
def shownPieces (pieces : List Piece) : List Char :=
  pieces.flatMap Piece.shown

/-- A character that belongs to a reference when it stands directly behind its name. -/
def goesOn (c : Char) : Bool :=
  isWord c || c == '['

/-- Each reference ends with its name. -/
def Ends : List Piece → Prop
  | [] => True
  | .plain _ :: rest => Ends rest
  | .reference _ :: rest => Stops goesOn (writtenPieces rest) ∧ Ends rest

/-- Some reference stands directly in front of another one. -/
def Adjoins : List Piece → Prop
  | [] => False
  | .plain _ :: rest => Adjoins rest
  | .reference _ :: rest => (writtenPieces rest).head? = some '$' ∨ Adjoins rest

/-- Text and references without blanks at the ends, in which each reference ends with its name. -/
structure Passage where
  pieces : List Piece
  trimmed : Trimmed (writtenPieces pieces)
  ends : Ends pieces

namespace Passage

def text (passage : Passage) : List Char :=
  writtenPieces passage.pieces

def shown (passage : Passage) : List Char :=
  shownPieces passage.pieces

end Passage

/-- The rule for references without braces. -/
abbrev bareRule : List Char → Option (List Char × List Char) :=
  bareSigil ['@', '{'] ['}']

-----------------------------------------------------------------------------------------
-- Characters of pieces
-----------------------------------------------------------------------------------------

/-- Characters of markup are in no word. -/
theorem ReferenceName.not_mem (name : ReferenceName) {c : Char} (other : isWord c = false)
    : c ∉ name.text :=
  fun member => ne_of_kind (name.word c member) other rfl

/-- Of the characters of markup the pieces have dollars only. -/
theorem not_mem_writtenPieces {c : Char} (special : c ∈ markupCharacters) (other : c ≠ '$')
    (pieces : List Piece)
    : c ∉ writtenPieces pieces := by
  intro member
  obtain ⟨piece, _, inside⟩ := List.mem_flatMap.mp member
  cases piece with
  | plain text => exact text.plain c inside special
  | reference name =>
      have wordless : markupCharacters.all (fun c => !isWord c) = true := by
        decide +kernel
      have outside : isWord c = false := by
        simpa using List.all_eq_true.mp wordless c special
      rcases List.mem_cons.mp inside with same | inside
      · exact other same
      · exact name.not_mem outside inside

/-- Pieces that start with a dollar start with a reference, by induction on them. -/
theorem exists_reference_of_head? {pieces : List Piece} (ends : Ends pieces)
    (dollar : (writtenPieces pieces).head? = some '$')
    : (shownPieces pieces).head? = some '@'
      ∧ ∃ (name : ReferenceName) (rest : List Char),
        writtenPieces pieces = '$' :: (name.text ++ rest) ∧ Stops goesOn rest := by
  induction pieces with
  | nil => exact nomatch dollar
  | cons piece pieces ih =>
      cases piece with
      | reference name => exact ⟨rfl, name, writtenPieces pieces, rfl, ends.1⟩
      | plain text =>
          obtain ⟨characters, plain⟩ := text
          cases characters with
          | nil => exact ih ends dollar
          | cons c rest =>
              obtain rfl : c = '$' := Option.some.inj dollar
              exact absurd (by decide) (plain '$' List.mem_cons_self)

-----------------------------------------------------------------------------------------
-- One reference
-----------------------------------------------------------------------------------------

theorem word?_eq_none {rest : List Char} (stops : Stops isWord rest) : word? rest = none := by
  have run := takeWhile_append_of_stops (List.forall_mem_nil _) stops
  rw [List.nil_append] at run
  simp [word?, run]

theorem stops_word {rest : List Char} (stops : Stops goesOn rest) : Stops isWord rest :=
  fun c first => (Bool.or_eq_false_iff.mp (stops c first)).1

theorem optional_of_head? {c : Char} {text : List Char} (h : text.head? ≠ some c)
    : optional c text = ([], text) := by
  cases text with
  | nil => rfl
  | cons d rest =>
      have other : d ≠ c := fun same => h (congrArg some same)
      rw [optional, if_neg other]

/-- What the reader takes behind a name: a dollar, and a word if a closing bracket follows. -/
def tailOf (rest : List Char) : List Char × List Char :=
  (closing? (optional '$' rest).2).getD ([], (optional '$' rest).2)

/-- A reference is read with whatever the reader takes behind its name. -/
theorem reference?_append (name : ReferenceName) {rest : List Char} (stops : Stops goesOn rest)
    : reference? (name.text ++ rest) = some (name.text ++ (tailOf rest).1, (tailOf rest).2) := by
  have square : rest.head? ≠ some '[' := by
    intro first
    exact nomatch (Bool.or_eq_false_iff.mp (stops '[' first)).2
  simp only [reference?, word?_append name.some name.word (stops_word stops),
    optional_of_head? square, Option.bind_eq_bind, Option.bind_some, List.append_nil]
  rfl

/-- The reader takes nothing behind a name, unless a dollar follows. -/
theorem tailOf_of_stops {rest : List Char} (stops : Stops goesOn rest)
    (dollar : rest.head? ≠ some '$')
    : tailOf rest = ([], rest) := by
  have none : closing? rest = none := by
    rw [closing?, word?_eq_none (stops_word stops)]
  rw [tailOf, optional_of_head? dollar, none, Option.getD_none]

/-- Behind a second dollar the reader loses the dollar, and takes the word as an index if a bracket
follows it. -/
theorem tailOf_dollar (next : ReferenceName) {rest : List Char} (stops : Stops goesOn rest)
    : tailOf ('$' :: (next.text ++ rest)) = ([], next.text ++ rest)
      ∨ ∃ behind, tailOf ('$' :: (next.text ++ rest)) = (next.text ++ [']'], behind) := by
  have split : (optional '$' ('$' :: (next.text ++ rest))).2 = next.text ++ rest := rfl
  rw [tailOf, split]
  cases closes : closing? (next.text ++ rest) with
  | none => exact Or.inl rfl
  | some taken =>
      rw [closing?, word?_append next.some next.word (stops_word stops)] at closes
      cases rest with
      | nil => exact nomatch closes
      | cons c behind =>
          by_cases bracket : c = ']'
          · subst bracket
            obtain rfl := Option.some.inj closes
            exact Or.inr ⟨behind, rfl⟩
          · simp [bracket] at closes

-----------------------------------------------------------------------------------------
-- The characters of a replacement
-----------------------------------------------------------------------------------------

theorem append_of_word? {text word rest : List Char} (h : word? text = some (word, rest))
    : word ++ rest = text := by
  simp only [word?] at h
  split at h
  · cases h
  · obtain ⟨rfl, rfl⟩ := Prod.mk.inj (Option.some.inj h)
    exact List.takeWhile_append_dropWhile

theorem append_optional (c : Char) (text : List Char)
    : (optional c text).1 ++ (optional c text).2 = text := by
  cases text with
  | nil => rfl
  | cons d rest =>
      rw [optional]
      split
      · next same => rw [same]; rfl
      · rfl

theorem append_of_closing? {text closed rest : List Char} (h : closing? text = some (closed, rest))
    : closed ++ rest = text := by
  unfold closing? at h
  split at h
  · next word behind found =>
    obtain ⟨rfl, rfl⟩ := Prod.mk.inj (Option.some.inj h)
    rw [← append_of_word? found]
    simp
  · exact nomatch h

/-- Behind a name the reader takes characters off, and loses a dollar at most. -/
theorem exists_append_tailOf (rest : List Char)
    : ∃ dollar, dollar ++ ((tailOf rest).1 ++ (tailOf rest).2) = rest := by
  refine ⟨(optional '$' rest).1, ?_⟩
  have behind : (tailOf rest).1 ++ (tailOf rest).2 = (optional '$' rest).2 := by
    rw [tailOf]
    cases closes : closing? (optional '$' rest).2 with
    | none => rfl
    | some taken => exact append_of_closing? closes
  rw [behind, append_optional]

/-- A reference and what follows it have no characters of their own. -/
theorem not_mem_of_reference? {c : Char} {text reference rest : List Char}
    (h : reference? text = some (reference, rest)) (apart : c ∉ text)
    : c ∉ reference ∧ c ∉ rest := by
  simp only [reference?, Option.bind_eq_bind, Option.bind_eq_some_iff] at h
  obtain ⟨⟨name, first⟩, found, same⟩ := h
  obtain ⟨rfl, rfl⟩ := Prod.mk.inj (Option.some.inj same)
  obtain ⟨dollar, behind⟩ := exists_append_tailOf (optional '[' first).2
  rw [← append_of_word? found, ← append_optional '[' first, ← behind] at apart
  simp only [List.mem_append, not_or] at apart ⊢
  exact ⟨⟨⟨apart.1, apart.2.1⟩, apart.2.2.2.1⟩, apart.2.2.2.2⟩

/-- A character that a rule does not write is not written, by the recursion of replacing. -/
theorem not_mem_replaceAll {rule : List Char → Option (List Char × List Char)} {c : Char}
    (h : ∀ {text output after}, rule text = some (output, after) → c ∉ text →
      c ∉ output ∧ c ∉ after)
    {text : List Char} (apart : c ∉ text)
    : c ∉ replaceAll rule text := by
  fun_induction replaceAll rule text with
  | case1 => exact apart
  | case2 d rest output after matched shorter ih =>
      obtain ⟨written, behind⟩ := h matched apart
      exact List.not_mem_append written (ih behind)
  | case3 d rest output after matched longer ih =>
      rw [List.mem_cons, not_or] at apart ⊢
      exact ⟨apart.1, ih apart.2⟩
  | case4 d rest unmatched ih =>
      rw [List.mem_cons, not_or] at apart ⊢
      exact ⟨apart.1, ih apart.2⟩

theorem not_mem_replaceAll_bareRule {c : Char} (other : c ∉ ['@', '{', '}']) {text : List Char}
    (apart : c ∉ text)
    : c ∉ replaceAll bareRule text := by
  refine not_mem_replaceAll (fun {text output after} matched outside => ?_) apart
  cases text with
  | nil => exact nomatch matched
  | cons d text =>
      by_cases dollar : d = '$'
      · subst dollar
        simp only [bareSigil, Option.bind_eq_bind, Option.bind_eq_some_iff] at matched
        obtain ⟨⟨reference, rest⟩, found, same⟩ := matched
        obtain ⟨rfl, rfl⟩ := Prod.mk.inj (Option.some.inj same)
        have inside := not_mem_of_reference? found (fun member => outside (.tail _ member))
        simp only [List.mem_cons, List.not_mem_nil, or_false, not_or] at other
        simp [inside, other]
      · simp [bareSigil, dollar] at matched

-----------------------------------------------------------------------------------------
-- All references
-----------------------------------------------------------------------------------------

/-- The rule for references puts a placeholder in the place of one. -/
theorem replaceAll_bareRule_reference (name : ReferenceName) {rest : List Char}
    (stops : Stops goesOn rest)
    : replaceAll bareRule ('$' :: (name.text ++ rest))
        = placeholder (name.text ++ (tailOf rest).1) ++ replaceAll bareRule (tailOf rest).2 := by
  have matched : bareRule ('$' :: (name.text ++ rest))
      = some (placeholder (name.text ++ (tailOf rest).1), (tailOf rest).2) := by
    simp [bareSigil, reference?_append name stops, placeholder]
  refine replaceAll_of_some matched ?_
  obtain ⟨dollar, behind⟩ := exists_append_tailOf rest
  have lengths := congrArg List.length behind
  simp only [List.length_append, List.length_cons] at lengths ⊢
  omega

/-- A reference in front of another one does not become a placeholder of its own. -/
theorem replaceAll_bareRule_adjoining (name : ReferenceName) {rest : List Piece} (ends : Ends rest)
    (stops : Stops goesOn (writtenPieces rest))
    (dollar : (writtenPieces rest).head? = some '$')
    : replaceAll bareRule ('$' :: (name.text ++ writtenPieces rest))
        ≠ placeholder name.text ++ shownPieces rest := by
  obtain ⟨starts, next, behind, split, stops'⟩ := exists_reference_of_head? ends dollar
  obtain ⟨c, more, word⟩ := List.exists_cons_of_ne_nil next.some
  have wordy : isWord c = true := next.word c (word ▸ List.mem_cons_self)
  have apart (other : Char) (h : isWord other = false) : c ≠ other := ne_of_kind wordy h
  rw [replaceAll_bareRule_reference name stops]
  rw [split]
  intro same
  rcases tailOf_dollar next stops' with taken | ⟨after, taken⟩
  · -- The name behind the lost dollar stands where a placeholder should start.
    rw [taken, word, List.append_nil, List.append_cancel_left_eq, List.cons_append,
      replaceAll_of_none (by simp [bareSigil, apart '$' (by decide +kernel)])] at same
    rw [← same] at starts
    exact apart '@' (by decide +kernel) (Option.some.inj starts)
  · -- The name is taken for an index, where the placeholder should end.
    rw [taken] at same
    simp only [word, placeholder, List.cons_append, List.append_assoc, List.cons.injEq, true_and,
      List.append_cancel_left_eq] at same
    exact apart '}' (by decide +kernel) same.1

/-- References become placeholders one for one exactly if none of them stands directly in front of
another, by induction on the pieces. -/
theorem replaceAll_bareRule_iff {pieces : List Piece} (ends : Ends pieces)
    : replaceAll bareRule (writtenPieces pieces) = shownPieces pieces ↔ ¬ Adjoins pieces := by
  induction pieces with
  | nil => exact iff_of_true (by rw [writtenPieces, List.flatMap_nil, replaceAll]; rfl) not_false
  | cons piece rest ih =>
      cases piece with
      | plain text =>
          have unmatched : ∀ c ∈ text.text, ∀ behind, bareRule (c :: behind) = none := by
            intro c member behind
            have other : c ≠ '$' := fun same => text.plain c member (same ▸ by decide)
            simp [bareSigil, other]
          have goes : replaceAll bareRule (writtenPieces (.plain text :: rest))
              = text.text ++ replaceAll bareRule (writtenPieces rest) :=
            replaceAll_append_of_unmatched unmatched (writtenPieces rest)
          rw [goes, show shownPieces (.plain text :: rest) = text.text ++ shownPieces rest from rfl,
            List.append_cancel_left_eq]
          exact ih ends
      | reference name =>
          obtain ⟨stops, more⟩ := ends
          have first : writtenPieces (.reference name :: rest)
              = '$' :: (name.text ++ writtenPieces rest) :=
            rfl
          have shows : shownPieces (.reference name :: rest)
              = placeholder name.text ++ shownPieces rest :=
            rfl
          rw [first, shows]
          by_cases dollar : (writtenPieces rest).head? = some '$'
          · refine iff_of_false (replaceAll_bareRule_adjoining name more stops dollar) ?_
            exact not_not.mpr (Or.inl dollar)
          · rw [replaceAll_bareRule_reference name stops, tailOf_of_stops stops dollar,
              List.append_nil, List.append_cancel_left_eq, ih more]
            exact not_congr (or_iff_right dollar).symm

-----------------------------------------------------------------------------------------
-- The cleanup of references
-----------------------------------------------------------------------------------------

/-- Without opening braces no reference is in braces, by induction on the text. -/
theorem replaceAll_bracedSigil_of_unbraced {before after text : List Char} (open' : '{' ∉ text)
    : replaceAll (bracedSigil before after) text = text := by
  induction text with
  | nil => rw [replaceAll]
  | cons c rest ih =>
      have unmatched : bracedSigil before after (c :: rest) = none := by
        unfold bracedSigil
        split
        · next same => exact absurd (by simp [same]) open'
        · rfl
      rw [replaceAll_of_none unmatched, ih (fun member => open' (.tail _ member))]

/-- The cleanup does nothing but what the rule for references does. -/
theorem cleanTagged_passage (passage : Passage)
    : cleanTagged passage.text = replaceAll bareRule passage.text := by
  have free {c : Char} (special : c ∈ markupCharacters) (other : c ≠ '$') : c ∉ passage.text :=
    not_mem_writtenPieces special other passage.pieces
  have tagged : '<' ∉ passage.text := free (by decide) (by decide)
  have slash : '\\' ∉ passage.text := free (by decide) (by decide)
  have braced : replaceAll (bracedSigil ['@', '{'] ['}']) passage.text = passage.text :=
    replaceAll_bracedSigil_of_unbraced (free (by decide) (by decide))
  exact cleanTagged_of_untagged passage.trimmed tagged braced rfl
    (not_mem_replaceAll_bareRule (by decide) slash) (not_mem_replaceAll_bareRule (by decide) tagged)

/-- In tagged text, references become placeholders one for one, and everything else is left as it
is, exactly if no reference stands directly in front of another. -/
theorem cleanTagged_passage_iff (passage : Passage)
    : cleanTagged passage.text = passage.shown ↔ ¬ Adjoins passage.pieces := by
  rw [cleanTagged_passage]
  exact replaceAll_bareRule_iff passage.ends

/-- Two references of one letter, one directly behind the other. -/
def twoReferences : Passage where
  pieces := [.reference ⟨['a'], by decide, List.forall_mem_singleton.mpr (by decide +kernel)⟩,
    .reference ⟨['b'], by decide, List.forall_mem_singleton.mpr (by decide +kernel)⟩]
  trimmed := @trimmed_between '$' 'b' rfl rfl ['a', '$']
  ends := ⟨stops_cons.mpr (by decide +kernel), stops_nil goesOn, trivial⟩

/-- The second of two references loses its dollar to the first one and stays as it is. -/
theorem cleanTagged_twoReferences
    : twoReferences.text = "$a$b".toList
      ∧ twoReferences.shown = "@\x7ba\x7d@\x7bb\x7d".toList
      ∧ cleanTagged twoReferences.text = "@\x7ba\x7db".toList := by
  refine ⟨rfl, rfl, ?_⟩
  have first : bareRule "$a$b".toList = some ("@\x7ba\x7d".toList, ['b']) := by decide +kernel
  have second : bareRule ['b'] = none := rfl
  rw [cleanTagged_passage, show twoReferences.text = "$a$b".toList from rfl,
    replaceAll_of_some first (by decide), replaceAll_of_none second, replaceAll]
  rfl

end QuizVariants.Markup
