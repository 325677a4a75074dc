import QuizVariants.Proofs.Literal.Plain
import QuizVariants.Proofs.Markup.Fragments
import QuizVariants.Proofs.Section.Blocks
import QuizVariants.Proofs.Section.Strings
import QuizVariants.Section.Tagged

/-! Tagged sources laid out section by section.
The sections of a tagged source are read in an order of their own, whatever order they stand in. A
line between text tags is read as the line, and an entry as the text between its marks.
-/

namespace QuizVariants.Section

open QuizVariants.Literal
open QuizVariants.Text
open QuizVariants.Markup (Line PlainText specialCharacters)

-----------------------------------------------------------------------------------------
-- Sections of a tagged source
-----------------------------------------------------------------------------------------

/-- A line that starts with the first character of no section's name is no header. -/
theorem taggedHeader?_eq_none {c : Char} (shows : isBlank c = false) (h : c ∉ ['I', 'Q', 'A', 'S'])
    (line : List Char)
    : taggedHeader? (c :: line) = none := by
  have trims : trim (c :: line) = c :: trimRight line := by
    rw [trim, trimLeft_cons_of_not_isBlank shows]
    exact trimRight_append_cons [] shows line
  have other {first : Char} {more : List Char} (member : first ∈ ['I', 'Q', 'A', 'S'])
      : String.ofList (c :: trimRight line) ≠ String.ofList (first :: more) := by
    intro same
    obtain ⟨rfl, _⟩ := List.cons.inj (String.ofList_injective same)
    exact h member
  rw [taggedHeader?, trims]
  split
  case h_5 => rfl
  all_goals
    next same => exact absurd same (other (by decide))

/-- What the sections among pieces stand for, in the order in which they are read. -/
def taggedContents (pieces : List Piece) : List (List (String × Content) × List Warning) :=
  taggedNames.filterMap (fun name =>
    (pieces.find? (fun piece => piece.name == name)).map (fun piece =>
      decodeTagged name (taggedBody ⟨piece.name, 0, piece.body⟩)))

/-- A section is looked up by its name, and read by its name and its lines. -/
theorem find?_decodeTagged {raws : List Raw} {pieces : List Piece}
    (same : raws.map (fun raw => (raw.name, raw.body))
      = pieces.map (fun piece => (piece.name, piece.body))) (name : String)
    : (raws.find? (fun raw => raw.name == name)).map (fun raw =>
          decodeTagged name (taggedBody raw))
        = (pieces.find? (fun piece => piece.name == name)).map (fun piece =>
          decodeTagged name (taggedBody ⟨piece.name, 0, piece.body⟩)) := by
  let named (part : String × List (List Char)) : Bool := part.1 == name
  let read (part : String × List (List Char)) : List (String × Content) × List Warning :=
    decodeTagged name (taggedBody ⟨part.1, 0, part.2⟩)
  have found := congrArg (fun parts => (parts.find? named).map read) same
  simp only [List.find?_map, Option.map_map] at found
  exact found

/-- A text that stands on a line of a tagged source as it is. -/
structure Stands (line : List Char) : Prop where
  shown : Shown line
  uncommented : '#' ∉ line

/-- A laid out source of pieces under distinct names is read piece by piece. -/
theorem readTagged_layOut {pieces : List Piece}
    (found : ∀ piece ∈ pieces, piece.Found taggedHeader?)
    (stand : ∀ piece ∈ pieces, ∀ line ∈ piece.lines, Stands line)
    (distinct : (pieces.map Piece.name).Nodup)
    : readTagged (layOut (pieces.flatMap Piece.lines))
        = .ok (finish (.ofList ((taggedContents pieces).flatMap Prod.fst)),
            (taggedContents pieces).flatMap Prod.snd) := by
  have all : ∀ line ∈ pieces.flatMap Piece.lines, Stands line := by
    intro line member
    obtain ⟨piece, among, inside⟩ := List.mem_flatMap.mp member
    exact stand piece among line inside
  have laid : lines (layOut (pieces.flatMap Piece.lines)) = pieces.flatMap Piece.lines :=
    lines_layOut (fun line member => (all line member).shown.oneLine)
  have texts : ∀ line ∈ numbered (pieces.flatMap Piece.lines), Stands line.2 := by
    intro line member
    refine all line.2 ?_
    rw [← map_snd_numbered (pieces.flatMap Piece.lines)]
    exact List.mem_map_of_mem member
  have uncommented : (numbered (pieces.flatMap Piece.lines)).map (fun line =>
        (line.1, before '#' line.2))
      = numbered (pieces.flatMap Piece.lines) := by
    have each : ∀ line ∈ numbered (pieces.flatMap Piece.lines),
        (line.1, before '#' line.2) = id line := by
      intro line member
      have whole : before '#' line.2 = line.2 := by
        refine List.takeWhile_eq_self_iff.mpr (fun c inside => ?_)
        exact bne_iff_ne.mpr (fun sign => (texts line member).uncommented (sign ▸ inside))
      rw [whole]
      rfl
    rw [List.map_congr_left each, List.map_id]
  have kept : (numbered (pieces.flatMap Piece.lines)).filter (fun line => !line.2.isEmpty)
      = numbered (pieces.flatMap Piece.lines) := by
    refine List.filter_eq_self.mpr (fun line member => ?_)
    simpa using (texts line member).shown.shows
  obtain ⟨raws, divided, sections⟩ :=
    exists_split_of_pieces found (map_snd_numbered (pieces.flatMap Piece.lines)) distinct
  rw [readTagged, laid]
  simp only [uncommented, kept, divided, bind, Except.bind, find?_decodeTagged sections]
  rfl

-----------------------------------------------------------------------------------------
-- Lines between text tags
-----------------------------------------------------------------------------------------

/-- A line between text tags, with the references of tagged text. -/
def taggedLine (line : Line) : List Char :=
  "<watex>".toList ++ (line.text '$' ++ "</watex>".toList)

theorem taggedLine_append (line : Line) (rest : List Char)
    : taggedLine line ++ rest
        = "<watex>".toList ++ (line.text '$' ++ ("</watex>".toList ++ rest)) :=
  (List.append_assoc _ _ _).trans (congrArg _ (List.append_assoc _ _ _))

/-- What text tags enclose is found between them, whatever stands behind. -/
theorem tagText_taggedLine (line : Line) (rest : List Char)
    : tagText (taggedLine line ++ rest) = line.text '$' := by
  have fresh : '<' ∉ line.text '$' := line.not_mem (by decide) (by decide)
  have opening : breakOn "<watex>".toList
        ("<watex>".toList ++ (line.text '$' ++ ("</watex>".toList ++ rest)))
      = some ([], line.text '$' ++ ("</watex>".toList ++ rest)) :=
    breakOn_append List.not_mem_nil _ _
  have closing : breakOn "</watex>".toList (line.text '$' ++ ("</watex>".toList ++ rest))
      = some (line.text '$', rest) :=
    breakOn_append fresh _ rest
  rw [tagText, taggedLine_append]
  simp only [opening, closing, Option.bind_eq_bind, Option.bind_some, Option.getD_some]

/-- A letter in the other case is no angle bracket. -/
theorem eq_of_toLower {c : Char} (h : c.toLower = '<') : c = '<' := by
  unfold Char.toLower at h
  split at h
  · next upper =>
    have code : (c.val + 32).toNat = 60 := congrArg (fun c => c.val.toNat) h
    have low : 65 ≤ c.val.toNat := upper.1
    have high : c.val.toNat ≤ 90 := upper.2
    rw [UInt32.toNat_add] at code
    change (c.val.toNat + 32) % 4294967296 = 60 at code
    omega
  · exact h

theorem scriptOpening : "<eqn>".toList = ['<', 'e', 'q', 'n', '>'] := by
  decide

/-- A script opens with an angle bracket. -/
theorem scriptedQuestion?_eq_none {c : Char} (h : c ≠ '<') (rest : List Char)
    : scriptedQuestion? (c :: rest) = none := by
  have other : ¬ Char.toLower '<' = c.toLower := fun same => h (eq_of_toLower same.symm)
  have unopened : afterAnyCase? "<eqn>".toList (c :: rest) = none := by
    rw [scriptOpening, afterAnyCase?, if_neg other]
  rw [scriptedQuestion?, unopened]
  rfl

/-- A tag with another name opens no script. -/
theorem scriptedQuestion?_tag {c : Char} (h : 'e' ≠ c.toLower) (rest : List Char)
    : scriptedQuestion? ('<' :: c :: rest) = none := by
  have other : ¬ Char.toLower 'e' = c.toLower := h
  have unopened : afterAnyCase? "<eqn>".toList ('<' :: c :: rest) = none := by
    rw [scriptOpening, afterAnyCase?, if_pos rfl, afterAnyCase?, if_neg other]
  rw [scriptedQuestion?, unopened]
  rfl

/-- A search passes over characters at which nothing is accepted, by induction on them. -/
theorem firstPlace?_append {α : Type} {tail : List Char → Option α} {front : List Char}
    (h : ∀ c ∈ front, ∀ behind, tail (c :: behind) = none) (passed rest : List Char)
    : firstPlace? tail passed (front ++ rest)
        = firstPlace? tail (front.reverse ++ passed) rest := by
  induction front generalizing passed with
  | nil => rfl
  | cons c front ih =>
      obtain ⟨first, others⟩ := List.forall_mem_cons.mp h
      rw [List.cons_append, firstPlace?, first, ih others, List.reverse_cons, List.append_assoc]
      rfl

/-- There is no script in a text with two other tags. -/
theorem firstPlace?_tags {c d : Char} (opening : 'e' ≠ c.toLower) (closing : 'e' ≠ d.toLower)
    {text rest : List Char} (inside : '<' ∉ c :: text) (behind : '<' ∉ d :: rest)
    : firstPlace? scriptedQuestion? [] ('<' :: (c :: text ++ '<' :: (d :: rest))) = none := by
  have passes {front : List Char} (h : '<' ∉ front)
      : ∀ c ∈ front, ∀ behind, scriptedQuestion? (c :: behind) = none :=
    fun c member => scriptedQuestion?_eq_none (fun same => h (same ▸ member))
  have first : scriptedQuestion? ('<' :: (c :: text ++ '<' :: (d :: rest))) = none :=
    scriptedQuestion?_tag opening _
  have last : scriptedQuestion? ('<' :: (d :: rest)) = none := scriptedQuestion?_tag closing _
  have ends := firstPlace?_append (passes behind) ('<' :: ((c :: text).reverse ++ ['<'])) []
  rw [List.append_nil] at ends
  rw [firstPlace?, first]
  change firstPlace? scriptedQuestion? ['<'] (c :: text ++ '<' :: (d :: rest)) = none
  rw [firstPlace?_append (passes inside), firstPlace?, last]
  exact ends.trans rfl

/-- A question of one line has no script, and its text is that of the line. -/
theorem splitQuestion_taggedLine (line : Line)
    : splitQuestion (taggedLine line ++ ['\n']) = (none, line.text '$') := by
  have fresh : '<' ∉ 'w' :: ("atex>".toList ++ line.text '$') := by
    rw [List.mem_cons, List.mem_append, not_or, not_or]
    exact ⟨by decide, by decide, line.not_mem (by decide) (by decide)⟩
  have unscripted : firstPlace? scriptedQuestion? [] (taggedLine line ++ ['\n']) = none := by
    have opening : "<watex>".toList = '<' :: 'w' :: "atex>".toList := by decide
    have closing : "</watex>".toList ++ ['\n'] = '<' :: '/' :: "watex>\n".toList := by decide
    have parts : taggedLine line ++ ['\n']
        = '<' :: ('w' :: ("atex>".toList ++ line.text '$') ++ '<' :: '/' :: "watex>\n".toList) := by
      rw [taggedLine_append, opening, closing]
      generalize "atex>".toList = name, "watex>\n".toList = behind
      simp only [List.cons_append, List.append_assoc]
    rw [parts]
    exact firstPlace?_tags (by decide) (by decide) fresh (by decide)
  rw [splitQuestion, unscripted, tagText_taggedLine]

-----------------------------------------------------------------------------------------
-- Sections of lines between text tags
-----------------------------------------------------------------------------------------

/-- A line between text tags starts with an angle bracket, ends in one, and has no comment. -/
theorem exists_taggedLine (line : Line)
    : ∃ text, taggedLine line = '<' :: (text ++ ['>']) ∧ '\n' ∉ text ∧ '#' ∉ text := by
  have opening : "<watex>".toList = '<' :: "watex>".toList := by decide
  have closing : "</watex>".toList = "</watex".toList ++ ['>'] := by decide
  have regroup (name text behind : List Char)
      : '<' :: name ++ (text ++ (behind ++ ['>']))
        = '<' :: ((name ++ (text ++ behind)) ++ ['>']) := by
    simp
  refine ⟨"watex>".toList ++ (line.text '$' ++ "</watex".toList), ?_, ?_⟩
  · exact (congrArg₂ (fun first last => first ++ (line.text '$' ++ last)) opening closing).trans
      (regroup _ _ _)
  · simp only [List.mem_append, not_or]
    exact ⟨⟨by decide, line.not_mem (by decide) (by decide), by decide⟩,
      ⟨by decide, line.not_mem (by decide) (by decide), by decide⟩⟩

theorem taggedHeader?_taggedLine (line : Line) : taggedHeader? (taggedLine line) = none := by
  obtain ⟨text, same, _⟩ := exists_taggedLine line
  rw [same]
  exact taggedHeader?_eq_none (by decide) (by decide) _

theorem stands_taggedLine (line : Line) : Stands (taggedLine line) := by
  obtain ⟨text, same, newline, sign⟩ := exists_taggedLine line
  have trimmed : Trimmed ('<' :: text ++ ['>']) := trimmed_between (by decide) (by decide) text
  rw [same]
  refine ⟨⟨trimmed, List.cons_ne_nil _ _, ?_⟩, ?_⟩
  · simp [newline]
  · simp [sign]

/-- What a line between text tags is shown as. -/
theorem taggedText_taggedLine (line : Line)
    : taggedText (line.text '$') = line.shown := by
  rw [taggedText, Markup.cleanTagged_text, Line.shown]

/-- Each line of an answer is a choice. -/
theorem answerChoices_taggedLines (choices : List Line)
    : answerChoices (taggedBody ⟨"answer", 0, choices.map taggedLine⟩)
        = choices.map Line.shown := by
  have body : taggedBody ⟨"answer", 0, choices.map taggedLine⟩ = layOut (choices.map taggedLine) :=
    rfl
  have found : lines (layOut (choices.map taggedLine)) = choices.map taggedLine :=
    lines_layOut (List.forall_mem_map.mpr (fun line _ => (stands_taggedLine line).shown.oneLine))
  have all : (choices.map taggedLine).filter (fun line => !allBlank line)
      = choices.map taggedLine := by
    refine List.filter_eq_self.mpr (List.forall_mem_map.mpr (fun line _ => ?_))
    have shown := (stands_taggedLine line).shown
    rw [shown.trimmed.allBlank_eq shown.shows]
    rfl
  rw [answerChoices, body, found, all, List.map_map]
  refine List.map_congr_left (fun line _ => ?_)
  have inside := tagText_taggedLine line []
  rw [List.append_nil] at inside
  rw [Function.comp, inside, taggedText_taggedLine]

theorem decodeTagged_question (line : Line)
    : decodeTagged "question" (taggedBody ⟨"question", 0, [taggedLine line]⟩)
        = ([("statement", .text line.shown)], []) := by
  have body : taggedBody ⟨"question", 0, [taggedLine line]⟩ = taggedLine line ++ ['\n'] :=
    List.append_nil _
  rw [body]
  change (questionSections (taggedLine line ++ ['\n']), []) = _
  simp only [questionSections, splitQuestion_taggedLine, taggedText_taggedLine]

theorem decodeTagged_answer (choices : List Line)
    : decodeTagged "answer" (taggedBody ⟨"answer", 0, choices.map taggedLine⟩)
        = ([("choices", .items (choices.map Line.shown))], []) := by
  rw [← answerChoices_taggedLines]
  rfl

theorem decodeTagged_solution (line : Line)
    : decodeTagged "solution" (taggedBody ⟨"solution", 0, [taggedLine line]⟩)
        = ([("solution", .text line.shown)], []) := by
  have body : taggedBody ⟨"solution", 0, [taggedLine line]⟩ = taggedLine line ++ [] := rfl
  rw [body]
  change ([("solution", Content.text (taggedText (tagText (taggedLine line ++ []))))], []) = _
  rw [tagText_taggedLine, taggedText_taggedLine]

-----------------------------------------------------------------------------------------
-- Entries with marks around both parts
-----------------------------------------------------------------------------------------

/-- The line of an entry whose key and value stand between marks. -/
def enclosedEntry (entry : String × PlainText) : List Char :=
  enclose '\'' entry.1.toList ++ ':' :: ' ' :: enclose '\'' entry.2.text

theorem needsNoEscapes_text (text : PlainText) : NeedsNoEscapes text.text := by
  have special : ['\\', '"', '\'', '\n', '\t'] ⊆ specialCharacters := by decide
  exact fun c member escaped => text.plain c member (special escaped)

/-- Entries as they are read. -/
def textEntries (entries : List (String × PlainText)) : List (String × Literal) :=
  entries.map (fun entry => (entry.1, .quoted (.ofList entry.2.text)))

/-- An entry between marks is found on its line. -/
theorem key?_enclosedEntry {entry : String × PlainText} (key : NeedsNoEscapes entry.1.toList)
    : key? (enclosedEntry entry) = some (entry.1.toList, ' ' :: enclose '\'' entry.2.text) := by
  have read := @unquote_of_needsNoEscapes '\'' _ rfl key
    (':' :: ' ' :: enclose '\'' entry.2.text)
  have parts : enclosedEntry entry
      = '\'' :: (entry.1.toList ++ '\'' :: ':' :: ' ' :: enclose '\'' entry.2.text) := by
    simp [enclosedEntry, enclose]
  have colon : after? [':'] (trimLeft (':' :: ' ' :: enclose '\'' entry.2.text))
      = some (' ' :: enclose '\'' entry.2.text) := by
    rw [trimLeft_cons_of_not_isBlank (by decide), after?_singleton]
  have unnamed (rest : List Char) : name? ('\'' :: rest) = none := rfl
  rw [parts, key?, unnamed]
  simp [quotedKey?, isQuote, read, colon]

theorem taggedHeader?_enclosedEntry (entry : String × PlainText)
    : taggedHeader? (enclosedEntry entry) = none :=
  taggedHeader?_eq_none (by decide) (by decide) _

theorem shown_enclosedEntry {entry : String × PlainText} (key : NeedsNoEscapes entry.1.toList)
    : Shown (enclosedEntry entry) := by
  have plain {text : List Char} (h : NeedsNoEscapes text) : '\n' ∉ enclose '\'' text := by
    have apart : '\n' ∉ text := fun member => h _ member (by decide)
    simp [enclose, apart]
  have parts : enclosedEntry entry
      = '\'' :: (entry.1.toList ++ '\'' :: ':' :: ' ' :: '\'' :: entry.2.text) ++ ['\''] := by
    simp [enclosedEntry, enclose]
  refine ⟨?_, List.cons_ne_nil _ _, ?_⟩
  · rw [parts]
    exact trimmed_between (by decide) (by decide) _
  · simp only [enclosedEntry, List.mem_append, List.mem_cons, not_or]
    exact ⟨plain key, by decide, by decide, plain (needsNoEscapes_text entry.2)⟩

theorem stands_enclosedEntry {entry : String × PlainText} (key : NeedsNoEscapes entry.1.toList)
    (uncommented : '#' ∉ entry.1.toList)
    : Stands (enclosedEntry entry) := by
  refine ⟨shown_enclosedEntry key, ?_⟩
  have sign : '#' ∉ entry.2.text := entry.2.not_mem (by decide)
  simp [enclosedEntry, enclose, uncommented, sign]

/-- Entries between marks are read back from their lines, by induction on them. -/
theorem entriesOf_enclosedEntries {entries : List (String × PlainText)}
    (keys : ∀ entry ∈ entries, NeedsNoEscapes entry.1.toList)
    : entriesOf (entries.map enclosedEntry) = some (textEntries entries) := by
  induction entries with
  | nil => rw [List.map_nil, entriesOf]; rfl
  | cons entry rest ih =>
      obtain ⟨key, others⟩ := List.forall_mem_cons.mp keys
      have needs := needsNoEscapes_text entry.2
      have trimmed : trim (' ' :: enclose '\'' entry.2.text) = enclose '\'' entry.2.text :=
        (trim_cons_of_isBlank (by decide)).trans (trimmed_between (by decide) (by decide) _)
      have untripled : tripleMark? (enclose '\'' entry.2.text) = none := by
        have opens := @after?_triple_enclose '\'' _ rfl needs
        simp [tripleMark?, opens]
      have value : valueLines (trim (' ' :: enclose '\'' entry.2.text)) (rest.map enclosedEntry)
          = some (enclose '\'' entry.2.text, rest.map enclosedEntry) := by
        rw [trimmed, valueLines, untripled]
      have uncut : dropComma (enclose '\'' entry.2.text) = enclose '\'' entry.2.text := by
        rw [dropComma, before?_eq_none]
        rw [enclose, List.getLast?_concat]
        decide
      rw [List.map_cons, entriesOf_cons (key?_enclosedEntry key) value, ih others, uncut,
        decodeChars_enclose rfl needs, String.ofList_toList]
      rfl

/-- A section of entries between marks is read as their texts. -/
theorem decodeTagged_info {entries : List (String × PlainText)}
    (keys : ∀ entry ∈ entries, NeedsNoEscapes entry.1.toList)
    : decodeTagged "info" (taggedBody ⟨"info", 0, entries.map enclosedEntry⟩)
        = ([("info", .mapping (.ofList (textEntries entries)))], []) := by
  have body : taggedBody ⟨"info", 0, entries.map enclosedEntry⟩
      = layOut (entries.map enclosedEntry) :=
    rfl
  have shown : ∀ line ∈ entries.map enclosedEntry, Shown line :=
    List.forall_mem_map.mpr (fun entry member => shown_enclosedEntry (keys entry member))
  have unbraced : insideBraces (joinWith ['\n'] (entries.map enclosedEntry))
      = joinWith ['\n'] (entries.map enclosedEntry) := by
    rw [insideBraces, after?_eq_none]
    · rfl
    · cases entries with
      | nil => rintro ⟨⟩
      | cons entry rest =>
          have starts := (shown_enclosedEntry (keys entry List.mem_cons_self)).shows
          rw [List.map_cons, head?_joinWith starts]
          rintro ⟨⟩
  have read : mapping? (layOut (entries.map enclosedEntry))
      = some (.ofList (textEntries entries)) := by
    rw [mapping?, trim_layOut shown, unbraced, shownLines_joinWith shown,
      entriesOf_enclosedEntries keys, Option.map_some]
  have named : ("info" == "info") = true := rfl
  rw [body, decodeTagged, if_pos named, read]

end QuizVariants.Section
