import Mathlib.Data.List.Infix
import QuizVariants.Proofs.Problem.Order
import QuizVariants.Proofs.Section.Closing
import QuizVariants.Proofs.Text.Marks
import QuizVariants.Variant.Plan

/-! Scripts as parameters.
A script stands in a source as a string in triple quotes, over as many lines as it has. The section
around it drops blanks beside a newline, and a string of marks, blanks and commas ends early, so
that a script is read as it stands exactly if it has none of these.
-/

namespace QuizVariants

open QuizVariants.Literal (triple)
open QuizVariants.Section
open QuizVariants.Text

/-- A source with a script as its only parameter. -/
def Definition.scriptSource (script : String) : String :=
  "<<parameters>>\ncode: \"\"\"" ++ script ++ "\"\"\"\n"

/-- The line on which a script starts. -/
def codeLine (text : List Char) : List Char :=
  scriptKey.toList ++ ':' :: ' ' :: (triple '"' ++ text)

/-- A text that can stand in triple quotes, no line of which is a header. -/
structure IsScript (script : List Char) : Prop where
  unquoted : ¬ triple '"' <:+: script
  ends : script.getLast? ≠ some '"'
  plain : '\r' ∉ script
  headless : ∀ line ∈ splitAt '\n' script, header? line = none

instance (script : List Char) : Decidable (IsScript script) :=
  decidable_of_iff (¬ triple '"' <:+: script ∧ script.getLast? ≠ some '"' ∧ '\r' ∉ script
      ∧ ∀ line ∈ splitAt '\n' script, header? line = none)
    ⟨fun h => ⟨h.1, h.2.1, h.2.2.1, h.2.2.2⟩, fun h => ⟨h.unquoted, h.ends, h.plain, h.headless⟩⟩

/-- A script that a section keeps as it stands: no blank stands in front of a newline or behind one,
a second newline being a blank as well, and its first lines cannot be taken for the end of the
string that opens in front of them. -/
structure KeptWhole (script : List Char) : Prop where
  ends : ∀ front rest, script = front ++ '\n' :: rest → ∀ c ∈ front.getLast?, isBlank c = false
  starts : ∀ front rest, script = front ++ '\n' :: rest → ∀ c ∈ rest.head?, isBlank c = false
  stays : ∀ front rest, script = front ++ '\n' :: rest → 3 ≤ byteCount front →
    ¬ OnlyMarks '"' front

/-- A text is split at a newline at one of its places. -/
theorem forall_newline_iff {holds : List Char → List Char → Prop} {text : List Char}
    : (∀ front rest, text = front ++ '\n' :: rest → holds front rest)
      ↔ ∀ place < text.length, text[place]? = some '\n' →
        holds (text.take place) (text.drop (place + 1)) := by
  constructor
  · intro h place inside newline
    refine h _ _ ?_
    obtain ⟨_, same⟩ := List.getElem?_eq_some_iff.mp newline
    rw [← same, List.getElem_cons_drop, List.take_append_drop]
  · rintro h front rest rfl
    simpa using h front.length (by simp) (by simp)

/-- An end of a text is looked at alone, if there is one. -/
instance (end? : Option Char) : Decidable (∀ c ∈ end?, isBlank c = false) :=
  decidable_of_iff (end?.all (fun c => !isBlank c) = true) (by cases end? <;> simp)

instance (script : List Char) : Decidable (KeptWhole script) :=
  decidable_of_iff
    ((∀ place < script.length, script[place]? = some '\n' →
        ∀ c ∈ (script.take place).getLast?, isBlank c = false)
      ∧ (∀ place < script.length, script[place]? = some '\n' →
        ∀ c ∈ (script.drop (place + 1)).head?, isBlank c = false)
      ∧ ∀ place < script.length, script[place]? = some '\n' →
        3 ≤ byteCount (script.take place) → ¬ OnlyMarks '"' (script.take place))
    ⟨fun h => ⟨forall_newline_iff.mpr h.1, forall_newline_iff.mpr h.2.1,
        forall_newline_iff.mpr h.2.2⟩,
      fun h => ⟨forall_newline_iff.mp h.ends, forall_newline_iff.mp h.starts,
        forall_newline_iff.mp h.stays⟩⟩

-----------------------------------------------------------------------------------------
-- The lines of a script
-----------------------------------------------------------------------------------------

theorem getLast?_of_marks {line text : List Char} (h : line = text ++ triple '"')
    : line.getLast? = some '"' := by
  rw [h, List.getLast?_append]
  rfl

/-- Closing marks are not trimmed. -/
theorem trimRight_append_marks (text : List Char)
    : trimRight (text ++ triple '"') = text ++ triple '"' := by
  refine trimRight_eq_self_iff.mpr (fun c ending => ?_)
  rw [getLast?_of_marks rfl] at ending
  obtain rfl := Option.some.inj ending
  rfl

/-- Lines at the start of a script are taken for a whole string exactly if they have three bytes and
show marks and commas only. -/
theorem closesTriple_iff {script front behind : List Char} (unquoted : ¬ triple '"' <:+: script)
    (split : script = front ++ behind)
    : closesTriple '"' (triple '"' ++ front) = true ↔ 3 ≤ byteCount front ∧ OnlyMarks '"' front := by
  refine closesTriple_append_iff (by decide) (by decide) rfl (fun within => unquoted ?_)
  rw [split]
  exact within.trans (List.prefix_append front behind).isInfix

/-- The lines of a script, the last one with the marks that close it. -/
structure ClosedLines (script first : List Char) (rest : List (List Char)) : Prop where
  joined : joinWith ['\n'] (first :: rest) = script ++ triple '"'
  plain : ∀ line ∈ first :: rest, '\n' ∉ line
  closes : ∃ front last, first :: rest = front ++ [last ++ triple '"']
    ∧ splitAt '\n' script = front ++ [last]

theorem exists_closedLines (script : List Char) : ∃ first rest, ClosedLines script first rest := by
  obtain ⟨front, last, split⟩ := List.eq_nil_or_concat (splitAt '\n' script)
    |>.resolve_left (splitAt_ne_nil _ _)
  rw [List.concat_eq_append] at split
  obtain ⟨first, rest, starts⟩ : ∃ first rest, front ++ [last ++ triple '"'] = first :: rest :=
    List.exists_cons_of_ne_nil (by simp)
  refine ⟨first, rest, ?_, ?_, front, last, starts.symm, split⟩
  · rw [← starts, joinWith_append_last, ← split, joinWith_splitAt]
  · have plain : ∀ line ∈ front ++ [last], '\n' ∉ line :=
      fun line member => not_mem_of_mem_splitAt (split ▸ member)
    rw [← starts]
    refine List.forall_mem_append.mpr ⟨fun line member => plain line (by simp [member]), ?_⟩
    refine List.forall_mem_singleton.mpr (fun member => ?_)
    rcases List.mem_append.mp member with inside | mark
    · exact plain last (by simp) inside
    · exact absurd mark (by decide)

namespace ClosedLines

variable {script first : List Char} {rest : List (List Char)}

/-- A newline of a script stands between two of its lines. -/
theorem exists_between (h : ClosedLines script first rest) {front behind : List Char}
    (split : script = front ++ '\n' :: behind)
    : ∃ earlier line later, rest = earlier ++ line :: later
      ∧ front = joinWith ['\n'] (first :: earlier)
      ∧ behind ++ triple '"' = joinWith ['\n'] (line :: later) := by
  have whole : joinWith ['\n'] (first :: rest) = front ++ '\n' :: (behind ++ triple '"') := by
    rw [h.joined, split, List.append_assoc]
    rfl
  obtain ⟨earlier, later, parts, some, others, before, after⟩ :=
    exists_parts_of_joinWith (List.cons_ne_nil _ _) h.plain whole
  obtain ⟨start, earlier, rfl⟩ := List.exists_cons_of_ne_nil some
  obtain ⟨line, later, rfl⟩ := List.exists_cons_of_ne_nil others
  obtain ⟨rfl, rfl⟩ := List.cons.inj parts
  exact ⟨earlier, line, later, rfl, before, after⟩

/-- Between two of its lines a script has a newline. -/
theorem exists_newline (h : ClosedLines script first rest) {earlier later : List (List Char)}
    {line : List Char} (some : earlier ≠ []) (split : first :: rest = earlier ++ line :: later)
    : ∃ behind, script = joinWith ['\n'] earlier ++ '\n' :: behind
      ∧ behind ++ triple '"' = joinWith ['\n'] (line :: later) := by
  have whole : script ++ triple '"'
      = joinWith ['\n'] earlier ++ '\n' :: joinWith ['\n'] (line :: later) := by
    rw [← h.joined, split, joinWith_append some (List.cons_ne_nil _ _)]
    rfl
  -- The closing marks hold no newline, so that they end what stands behind this one.
  have ending : triple '"' <:+ joinWith ['\n'] (line :: later) :=
    suffix_of_not_mem ⟨script, whole⟩ (by decide)
  obtain ⟨behind, same⟩ := ending
  refine ⟨behind, (List.append_left_inj (triple '"')).mp ?_, same⟩
  rw [whole, ← same, List.append_assoc]
  rfl

/-- The last line ends with the closing marks. -/
theorem getLast?_of_last (h : ClosedLines script first rest) {earlier : List (List Char)}
    {line : List Char} (split : first :: rest = earlier ++ [line])
    : line.getLast? = some '"' := by
  obtain ⟨front, last, closed, _⟩ := h.closes
  rw [closed] at split
  exact getLast?_of_marks (List.singleton_inj.mp (List.append_inj' split rfl).2).symm

/-- No line ends with a blank if no blank stands in front of a newline. -/
theorem not_blank_of_ends (h : ClosedLines script first rest)
    (ends : ∀ front behind, script = front ++ '\n' :: behind →
      ∀ c ∈ front.getLast?, isBlank c = false)
    {earlier later : List (List Char)} {line : List Char}
    (split : first :: rest = earlier ++ line :: later)
    : ∀ c ∈ line.getLast?, isBlank c = false := by
  intro c last
  rcases later with _ | ⟨next, later⟩
  · obtain rfl := Option.some.inj ((h.getLast?_of_last split).symm.trans last)
    rfl
  · have shows : line ≠ [] := by
      rintro rfl
      exact nomatch last
    have whole : first :: rest = (earlier ++ [line]) ++ next :: later := by
      rw [split, List.append_assoc]
      rfl
    obtain ⟨behind, newline, _⟩ := h.exists_newline (by simp) whole
    refine ends _ behind newline c ?_
    rwa [getLast?_joinWith shows]

/-- A line behind a newline shows something and starts without a blank if no blank stands behind a
newline. -/
theorem not_blank_of_starts (h : ClosedLines script first rest)
    (starts : ∀ front behind, script = front ++ '\n' :: behind →
      ∀ c ∈ behind.head?, isBlank c = false)
    {line : List Char} (member : line ∈ rest)
    : line ≠ [] ∧ ∀ c ∈ line.head?, isBlank c = false := by
  obtain ⟨earlier, later, parts⟩ := List.append_of_mem member
  have split : first :: rest = (first :: earlier) ++ line :: later := congrArg (first :: ·) parts
  obtain ⟨behind, newline, same⟩ := h.exists_newline (List.cons_ne_nil _ _) split
  have next := starts _ behind newline
  have shows : line ≠ [] := by
    rintro rfl
    rcases later with _ | ⟨other, later⟩
    · exact nomatch h.getLast?_of_last split
    · -- An empty line has a newline in front of it and one behind it.
      rw [joinWith_cons_cons, List.nil_append, List.singleton_append] at same
      cases behind with
      | nil => exact absurd (List.cons.inj same).1 (by decide)
      | cons c behind =>
          obtain ⟨rfl, _⟩ := List.cons.inj same
          exact absurd (next '\n' rfl) (by decide)
  refine ⟨shows, fun c start => ?_⟩
  rw [← head?_joinWith shows ['\n'] later, ← same, List.head?_append] at start
  cases behind with
  | nil =>
      obtain rfl := Option.some.inj start
      rfl
  | cons d behind => exact next c start

/-- A section keeps the lines of a script exactly if no blank stands beside a newline. -/
theorem kept_iff (h : ClosedLines script first rest)
    : trimRight first = first ∧ keptLines rest = rest
      ↔ (∀ front behind, script = front ++ '\n' :: behind →
          ∀ c ∈ front.getLast?, isBlank c = false)
        ∧ ∀ front behind, script = front ++ '\n' :: behind →
          ∀ c ∈ behind.head?, isBlank c = false := by
  constructor
  · rintro ⟨start, kept⟩
    have shown := keptLines_eq_self_iff.mp kept
    refine ⟨fun front behind split c last => ?_, fun front behind split c next => ?_⟩
    · obtain ⟨earlier, line, later, rfl, rfl, _⟩ := h.exists_between split
      rcases List.eq_nil_or_concat earlier with rfl | ⟨before, other, rfl⟩
      · exact trimRight_eq_self_iff.mp start c last
      · obtain ⟨trimmed, shows⟩ := shown other (by simp)
        rw [List.concat_eq_append, ← List.cons_append, getLast?_joinWith shows] at last
        exact (trimmed_iff.mp trimmed).2 c last
    · obtain ⟨earlier, line, later, rfl, _, same⟩ := h.exists_between split
      obtain ⟨trimmed, shows⟩ := shown line (by simp)
      refine (trimmed_iff.mp trimmed).1 c ?_
      rw [← head?_joinWith shows ['\n'] later, ← same, List.head?_append, next, Option.some_or]
  · rintro ⟨ends, starts⟩
    refine ⟨trimRight_eq_self_iff.mpr (h.not_blank_of_ends ends (List.nil_append _).symm),
      keptLines_eq_self_iff.mpr (fun line member => ?_)⟩
    obtain ⟨shows, start⟩ := h.not_blank_of_starts starts member
    obtain ⟨earlier, later, parts⟩ := List.append_of_mem (List.mem_cons_of_mem first member)
    exact ⟨trimmed_iff.mpr ⟨start, h.not_blank_of_ends ends parts⟩, shows⟩

/-- What is kept of the lines ends with the closing marks. -/
theorem exists_inner (h : ClosedLines script first rest)
    : ∃ inner, joinWith ['\n'] (trimRight first :: keptLines rest) = inner ++ triple '"' := by
  obtain ⟨front, last, closed, _⟩ := h.closes
  rcases front with _ | ⟨line, front⟩
  · obtain ⟨rfl, rfl⟩ := List.cons.inj closed
    exact ⟨last, trimRight_append_marks last⟩
  · rw [List.cons_append] at closed
    obtain ⟨rfl, rfl⟩ := List.cons.inj closed
    have shows : allBlank (last ++ triple '"') = false := by
      rw [allBlank, List.all_append]
      exact Bool.and_false _
    have trims : trim (last ++ triple '"') = trimLeft last ++ triple '"' := by
      have stops : Stops isBlank (triple '"') := stops_cons.mpr rfl
      rw [trim, trimLeft, dropWhile_append_stops stops, trimRight_append_marks, trimLeft]
    refine ⟨joinWith ['\n'] (trimRight first :: keptLines front ++ [trimLeft last]), ?_⟩
    have kept : keptLines (front ++ [last ++ triple '"'])
        = keptLines front ++ [trimLeft last ++ triple '"'] := by
      rw [keptLines, List.filter_append, List.map_append, List.filter_singleton]
      simp [shows, trims, keptLines]
    rw [kept, ← List.cons_append, joinWith_append_last]

/-- No more characters are kept than there are. -/
theorem length_kept (h : ClosedLines script first rest)
    : (trimRight first).length + charCount (keptLines rest) ≤ script.length + 3 := by
  have whole := congrArg List.length h.joined
  rw [length_joinWith_newline, List.length_append] at whole
  have start := length_trimRight_le first
  have kept := charCount_keptLines_le rest
  have marks : (triple '"').length = 3 := rfl
  omega

/-- The string that is read on the lines of a script ends with the first of them that closes it. -/
theorem exists_value (h : ClosedLines script first rest)
    : ∃ taken later, keptLines rest = taken ++ later
      ∧ entriesOf (codeLine (trimRight first) :: keptLines rest)
        = (entriesOf later).map ((scriptKey, Literal.decodeChars (dropComma
            (triple '"' ++ joinWith ['\n'] (trimRight first :: taken)))) :: ·)
      ∧ closesTriple '"' (triple '"' ++ joinWith ['\n'] (trimRight first :: taken)) = true
      ∧ ∀ fewer more, taken = fewer ++ more → more ≠ [] →
        closesTriple '"' (triple '"' ++ joinWith ['\n'] (trimRight first :: fewer)) = false := by
  obtain ⟨inner, closed⟩ := h.exists_inner
  have closes : closesTriple '"'
      (joinWith ['\n'] ((triple '"' ++ trimRight first) :: keptLines rest)) = true := by
    rw [← append_joinWith_cons, closed]
    exact closesTriple_closed rfl inner (List.forall_mem_nil _) (List.forall_mem_nil _)
  obtain ⟨taken, later, split, found, ends, earlier⟩ := exists_of_closesTriple closes
  simp only [← append_joinWith_cons] at found ends earlier
  refine ⟨taken, later, split, ?_, ends, earlier⟩
  have keyed : key? (codeLine (trimRight first))
      = some (scriptKey.toList, ' ' :: (triple '"' ++ trimRight first)) := by
    have named : name? (codeLine (trimRight first))
        = some (scriptKey.toList, ':' :: ' ' :: (triple '"' ++ trimRight first)) :=
      name?_append (by decide) (stops_cons.mpr (by decide))
    rw [key?, named]
    rfl
  have read : valueLines (trim (' ' :: (triple '"' ++ trimRight first))) (keptLines rest)
      = some (triple '"' ++ joinWith ['\n'] (trimRight first :: taken), later) := by
    rw [trim_cons_of_isBlank (by decide), Literal.trim_triple, trimRight_trimRight]
    exact found
  rw [entriesOf_cons keyed read, scriptKey]
  rfl

/-- A string that takes all lines of a script is the script exactly if the script is kept whole. -/
theorem value_iff_of_all (h : ClosedLines script first rest) (unquoted : ¬ triple '"' <:+: script)
    (open' : ∀ fewer more, keptLines rest = fewer ++ more → more ≠ [] →
      closesTriple '"' (triple '"' ++ joinWith ['\n'] (trimRight first :: fewer)) = false)
    : Literal.decodeChars (dropComma
          (triple '"' ++ joinWith ['\n'] (trimRight first :: keptLines rest)))
        = .quoted (.ofList script)
      ↔ KeptWhole script := by
  obtain ⟨inner, closed⟩ := h.exists_inner
  have plain : ∀ line ∈ trimRight first :: keptLines rest, '\n' ∉ line := by
    obtain ⟨start, others⟩ := List.forall_mem_cons.mp h.plain
    exact List.forall_mem_cons.mpr ⟨not_mem_trimRight start, not_mem_keptLines others⟩
  have uncut : dropComma (triple '"' ++ (inner ++ triple '"'))
      = triple '"' ++ (inner ++ triple '"') := by
    have ending : (triple '"' ++ (inner ++ triple '"')).getLast? = some '"' :=
      getLast?_of_marks (List.append_assoc _ _ _).symm
    rw [dropComma, before?_eq_none (by rw [ending]; decide)]
  have whole : inner = script ↔ trimRight first = first ∧ keptLines rest = rest := by
    rw [← List.append_left_inj (triple '"'), ← closed, ← h.joined]
    constructor
    · exact fun same => List.cons.inj
        (joinWith_inj (List.cons_ne_nil _ _) (List.cons_ne_nil _ _) plain h.plain same)
    · rintro ⟨start, kept⟩
      rw [start, kept]
  rw [closed, uncut, Literal.decodeChars_triple_iff, trimRight_append_marks, String.toList_ofList,
    List.append_left_inj, and_iff_left unquoted, whole]
  constructor
  · intro kept
    obtain ⟨ends, starts⟩ := h.kept_iff.mp kept
    refine ⟨ends, starts, fun front behind split size only => ?_⟩
    obtain ⟨earlier, line, later, parts, rfl, _⟩ := h.exists_between split
    have still := open' earlier (line :: later) (by rw [kept.2, parts]) (List.cons_ne_nil _ _)
    rw [kept.1, (closesTriple_iff unquoted split).mpr ⟨size, only⟩] at still
    cases still
  · exact fun kept => h.kept_iff.mpr ⟨kept.ends, kept.starts⟩

/-- A script is not kept whole if its string ends before its last line. -/
theorem not_keptWhole (h : ClosedLines script first rest) (unquoted : ¬ triple '"' <:+: script)
    {taken later : List (List Char)} {line : List Char}
    (split : keptLines rest = taken ++ line :: later)
    (closes : closesTriple '"' (triple '"' ++ joinWith ['\n'] (trimRight first :: taken)) = true)
    : ¬ KeptWhole script := by
  intro kept
  obtain ⟨start, others⟩ := h.kept_iff.mpr ⟨kept.ends, kept.starts⟩
  rw [others] at split
  rw [start] at closes
  obtain ⟨behind, parts, _⟩ := h.exists_newline (List.cons_ne_nil first taken)
    (congrArg (first :: ·) split)
  obtain ⟨size, only⟩ := (closesTriple_iff unquoted parts).mp closes
  exact kept.stays _ _ parts size only

/-- A string that ends before the last line of a script is too short to be the script. -/
theorem value_ne_of_later (h : ClosedLines script first rest) {taken later : List (List Char)}
    {line : List Char} (split : keptLines rest = taken ++ line :: later)
    : Literal.decodeChars (dropComma (triple '"' ++ joinWith ['\n'] (trimRight first :: taken)))
      ≠ .quoted (.ofList script) := by
  intro same
  have kept := h.length_kept
  have count : charCount (keptLines rest)
      = charCount taken + (line.length + 1 + charCount later) := by
    rw [split, charCount, layOut_append, List.length_append, ← charCount, ← charCount,
      charCount_cons]
  obtain ⟨text, cut, shorter⟩ :=
    exists_dropComma_triple (joinWith ['\n'] (trimRight first :: taken))
  rw [length_joinWith_newline] at shorter
  rw [cut, Literal.decodeChars_triple_iff, String.toList_ofList] at same
  have ending := congrArg List.length same.1
  have trims := length_trimRight_le text
  have marks : (triple '"').length = 3 := rfl
  rw [List.length_append] at ending
  omega

/-- A script is read as it stands exactly if it is kept whole. -/
theorem entries_iff (h : ClosedLines script first rest) (unquoted : ¬ triple '"' <:+: script)
    : (((entriesOf (codeLine (trimRight first) :: keptLines rest)).map Table.ofList).getD
            .empty).entries
          = [(scriptKey, .quoted (.ofList script))]
      ↔ KeptWhole script := by
  obtain ⟨taken, later, split, read, closes, open'⟩ := h.exists_value
  rw [read]
  rcases later with _ | ⟨line, later⟩
  · rw [List.append_nil] at split
    subst split
    rw [← h.value_iff_of_all unquoted open', entriesOf]
    change [(scriptKey, _)] = _ ↔ _
    rw [List.singleton_inj, Prod.mk.injEq, and_iff_right rfl]
  · refine iff_of_false (fun same => ?_) (h.not_keptWhole unquoted split closes)
    cases others : entriesOf (line :: later) with
    | none =>
        rw [others] at same
        cases same
    | some entries =>
        rw [others] at same
        have member : (scriptKey, Literal.quoted (.ofList script))
            ∈ (Table.ofList ((scriptKey, _) :: entries)).entries := same ▸ List.mem_singleton_self _
        rcases List.mem_cons.mp (Table.mem_of_mem_ofList member) with first' | other
        · exact h.value_ne_of_later split (Prod.mk.inj first').2.symm
        · have long := length_of_mem_entriesOf others other
          have kept := h.length_kept
          have count : charCount (keptLines rest)
              = charCount taken + charCount (line :: later) := by
            rw [split, charCount, layOut_append, List.length_append, ← charCount, ← charCount]
          rw [String.toList_ofList] at long
          omega

end ClosedLines

-----------------------------------------------------------------------------------------
-- The section around a script
-----------------------------------------------------------------------------------------

/-- Lines that are no headers make a body. -/
theorem exists_plainLines {ls : List (List Char)}
    (h : ∀ line ∈ ls, header? line = none ∧ '\n' ∉ line)
    : ∃ body : List PlainLine, body.map PlainLine.text = ls := by
  induction ls with
  | nil => exact ⟨[], rfl⟩
  | cons line rest ih =>
      obtain ⟨⟨none, plain⟩, others⟩ := List.forall_mem_cons.mp h
      obtain ⟨body, same⟩ := ih others
      exact ⟨⟨line, header?_eq_none_iff.mp none, plain⟩ :: body, by rw [List.map_cons, same]⟩

/-- The lines of a script are no headers, have no carriage returns and close no string. -/
theorem IsScript.forall_lines {script : List Char} (h : IsScript script)
    : ∀ line ∈ splitAt '\n' script,
        header? line = none ∧ '\r' ∉ line ∧ ¬ triple '"' <:+: line := by
  intro line member
  have within : line <:+: script := by
    have part := infix_joinWith member ['\n']
    rwa [joinWith_splitAt] at part
  exact ⟨h.headless line member, fun return' => h.plain (within.subset return'),
    fun marks => h.unquoted (marks.trans within)⟩

/-- The marks that close a script make no header and no carriage return. -/
theorem IsScript.forall_closedLines {script first : List Char} {rest : List (List Char)}
    (h : IsScript script) (closed : ClosedLines script first rest)
    : ∀ line ∈ codeLine first :: rest, header? line = none ∧ '\n' ∉ line ∧ '\r' ∉ line := by
  have each : ∀ line ∈ first :: rest, header? line = none ∧ '\n' ∉ line ∧ '\r' ∉ line := by
    intro line member
    have newline := closed.plain line member
    obtain ⟨front, last, lines, parts⟩ := closed.closes
    have plain := h.forall_lines
    rw [parts] at plain
    rw [lines] at member
    rcases List.mem_append.mp member with early | final
    · obtain ⟨none, return', _⟩ := plain line (List.mem_append_left _ early)
      exact ⟨none, newline, return'⟩
    · obtain rfl := List.mem_singleton.mp final
      obtain ⟨none, return', _⟩ := plain last (by simp)
      refine ⟨header?_eq_none_iff.mpr (fun label heads => ?_), newline, by simp [triple, return']⟩
      have marks : last ++ triple '"' = last ++ ['"'] ++ ['"'] ++ ['"'] := by simp [triple]
      rw [marks] at heads
      exact header?_eq_none_iff.mp none label
        (((heads.of_append (by decide)).of_append (by decide)).of_append (by decide))
  obtain ⟨⟨_, newline, return'⟩, others⟩ := List.forall_mem_cons.mp each
  refine List.forall_mem_cons.mpr ⟨⟨rfl, ?_, ?_⟩, others⟩
  · simp [codeLine, scriptKey, triple, newline]
  · simp [codeLine, scriptKey, triple, return']

/-- The section of a script, given the lines of its body. -/
def scriptSection (body : List PlainLine) : Written where
  label := "parameters".toList
  header := "<<parameters>>".toList
  heads := @Heads.intro _ [] [] [] [] [] (by decide) (by decide) (by decide) (by decide)
    (by decide) (List.all_eq_true.mp rfl) (by decide)
  oneLine := by decide
  body

/-- The lines of a script are kept up to the marks that close it. -/
theorem IsScript.literalLines_eq {script first : List Char} {rest : List (List Char)}
    (h : IsScript script) (closed : ClosedLines script first rest)
    : literalLines none (codeLine first :: rest) = codeLine first :: rest := by
  obtain ⟨front, last, lines, parts⟩ := closed.closes
  have plain := h.forall_lines
  rw [parts] at plain
  have ends : last.getLast? ≠ some '"' := by
    intro mark
    refine h.ends ?_
    have shows : last ≠ [] := by
      rintro rfl
      exact nomatch mark
    rw [← joinWith_splitAt '\n' script, parts, getLast?_joinWith shows, mark]
  have key : ∀ c ∈ scriptKey.toList ++ [':', ' '], c ≠ '#' ∧ Literal.isQuote c = false := by
    simp [scriptKey, Literal.isQuote]
  have kept := literalLines_opened key (fun line member => (plain line member).2.2) ends lines.symm
  have same : scriptKey.toList ++ [':', ' '] ++ (triple '"' ++ first) = codeLine first :=
    List.append_assoc _ _ _
  rwa [same] at kept

/-- What the section of a script is read as. -/
theorem mapping?_script {script first : List Char} {rest : List (List Char)} (h : IsScript script)
    (closed : ClosedLines script first rest) {body : List PlainLine}
    (texts : body.map PlainLine.text = codeLine first :: rest)
    : mapping? ((scriptSection body).rawAt 0).text
        = (entriesOf (codeLine (trimRight first) :: keptLines rest)).map Table.ofList := by
  have plain := h.forall_closedLines closed
  have lines : ((scriptSection body).rawAt 0).body = codeLine first :: rest := by
    have whole : (body.map PlainLine.text).map withoutReturn = body.map PlainLine.text := by
      rw [texts]
      refine map_eq_self (fun line member => withoutReturn_eq_self (fun ending => ?_))
      exact (plain line member).2.2 (List.mem_of_getLast? ending)
    rw [← texts, ← whole, List.map_map]
    rfl
  have kept : keptLines (codeLine first :: rest)
      = codeLine (trimRight first) :: keptLines rest := by
    have trims : trim (codeLine first) = codeLine (trimRight first) :=
      trimRight_append_cons (scriptKey.toList ++ [':', ' ', '"', '"']) (by decide) first
    rw [keptLines, List.filter_cons_of_pos rfl, List.map_cons, trims]
    rfl
  have read := @mapping?_text ((scriptSection body).rawAt 0) 'c' _ rest rfl
    (by rw [lines]; exact h.literalLines_eq closed)
    (by rw [lines]; exact fun line member => (plain line member).2.1) lines (by decide) (by decide)
  rw [read, lines, kept]

/-- A source is laid out with the lines of its script. -/
theorem scriptSource_eq {script : String} {first : List Char} {rest : List (List Char)}
    (closed : ClosedLines script.toList first rest) {body : List PlainLine}
    (texts : body.map PlainLine.text = codeLine first :: rest)
    : Definition.scriptSource script = sourceOf [] [scriptSection body] := by
  have lines : sourceLines [] [scriptSection body]
      = "<<parameters>>".toList :: codeLine first :: rest := by
    rw [← texts, sourceLines, List.flatMap_singleton]
    rfl
  have joined : joinWith ['\n'] (codeLine first :: rest)
      = scriptKey.toList ++ ':' :: ' ' :: (triple '"' ++ (script.toList ++ triple '"')) := by
    rw [← closed.joined, joinWith_cons, joinWith_cons]
    simp [codeLine]
  have source : (Definition.scriptSource script).toList
      = layOut ("<<parameters>>".toList :: codeLine first :: rest) := by
    have opening : "<<parameters>>\ncode: \"\"\"".toList
        = "<<parameters>>".toList ++ '\n' :: (scriptKey.toList ++ ':' :: ' ' :: triple '"') := by
      decide
    have closing : "\"\"\"\n".toList = triple '"' ++ ['\n'] := by decide
    have parts : (Definition.scriptSource script).toList = _ ++ script.toList ++ _ :=
      (String.toList_append ..).trans (congrArg (· ++ _) (String.toList_append ..))
    rw [parts, opening, closing, layOut_cons, layOut_eq_joinWith (List.cons_ne_nil _ _), joined]
    generalize "<<parameters>>".toList = header
    simp only [List.append_assoc, List.cons_append]
  rw [sourceOf, lines, ← source, String.ofList_toList]

/-- A section of parameters fills in the parameters. -/
theorem ofSections_parameters (table : Table Literal)
    : Definition.ofSections (finish (.ofList [("parameters", .mapping table)]))
        = { parameters := table } := by
  simp [finish, renameId, spreadInfo, Table.ofList, Table.get?, Table.insertAll, Table.insert,
    Table.empty, insertEntry, findEntry?, Table.erase, eraseEntry, Definition.ofSections,
    Definition.take]

namespace Definition

/-- A source with a script has the entries of the lines that are kept, or none and a warning. -/
theorem parse_of_closedLines {script : String} {first : List Char} {rest : List (List Char)}
    (h : IsScript script.toList) (closed : ClosedLines script.toList first rest)
    {read : Option (Table Literal)}
    (entries : (entriesOf (codeLine (trimRight first) :: keptLines rest)).map Table.ofList = read)
    : parse .primary (scriptSource script)
        = .ok ({ parameters := read.getD .empty },
            if read.isSome then [] else [.malformedMapping "parameters"]) := by
  have plain := h.forall_closedLines closed
  obtain ⟨body, texts⟩ := exists_plainLines (fun line member =>
    ⟨(plain line member).1, (plain line member).2.1⟩)
  have found := (mapping?_script h closed texts).trans entries
  have name : (scriptSection body).name = "parameters" := rfl
  have holds : holdsLiterals "parameters" = true := rfl
  have decoded : (scriptSection body).read
      = (.mapping (read.getD .empty),
          if read.isSome then [] else [.malformedMapping "parameters"]) := by
    rw [Written.read, name, decode, if_pos holds, found]
    cases read <;> rfl
  have parsed := @parse_of_distinct [scriptSection body] (by simp) []
  rwa [← scriptSource_eq closed texts, List.map_singleton, List.flatMap_singleton, Written.entry,
    decoded, name, ofSections_parameters] at parsed

/-- A script comes back as it stands exactly if it is kept whole.
Reading a source with a script never fails. The script is then the only parameter, and the script
that a plan of the problem runs, if no blank stands beside a newline of it and no lines at its start
show marks and commas alone; any other script is lost or changed.
-/
theorem parse_scriptSource {script : String} (h : IsScript script.toList)
    : ∃ definition warnings,
        parse .primary (scriptSource script) = .ok (definition, warnings)
        ∧ (definition.parameters.entries = [(scriptKey, .quoted script)]
          ↔ KeptWhole script.toList)
        ∧ (KeptWhole script.toList →
          warnings = [] ∧ (Plan.ofDefinition definition).parameters = .script script) := by
  obtain ⟨first, rest, closed⟩ := exists_closedLines script.toList
  have parsed := parse_of_closedLines h closed rfl
  have entries := closed.entries_iff h.unquoted
  generalize (entriesOf (codeLine (trimRight first) :: keptLines rest)).map Table.ofList = read
    at parsed entries
  rw [String.ofList_toList] at entries
  refine ⟨_, _, parsed, entries, fun kept => ?_⟩
  cases read with
  | none => exact nomatch entries.mpr kept
  | some table =>
      have code : table.get? scriptKey = some (.quoted script) := by
        rw [Table.get?, show table.entries = _ from entries.mpr kept]
        rfl
      refine ⟨rfl, ?_⟩
      rw [Plan.ofDefinition]
      simp only [Option.getD_some, code]
      rfl

/-- A script of two lines that comes back: neither the number signs nor the quotes and the comma at
the ends of its lines are lost. -/
theorem parse_scriptSource_twoLines
    : IsScript "a = '#',\nb = \"\" # c".toList
      ∧ ∃ definition,
        parse .primary (scriptSource "a = '#',\nb = \"\" # c") = .ok (definition, [])
        ∧ definition.parameters.entries = [(scriptKey, .quoted "a = '#',\nb = \"\" # c")]
        ∧ (Plan.ofDefinition definition).parameters = .script "a = '#',\nb = \"\" # c" := by
  have isScript : IsScript "a = '#',\nb = \"\" # c".toList := by decide +kernel
  have kept : KeptWhole "a = '#',\nb = \"\" # c".toList := by decide +kernel
  obtain ⟨definition, warnings, read, same, runs⟩ := parse_scriptSource isScript
  obtain ⟨rfl, script⟩ := runs kept
  exact ⟨isScript, definition, read, same.mpr kept, script⟩

/-- A script loses the blanks at the start of a line. -/
theorem parse_scriptSource_indented
    : IsScript "a = 1\n  b = 2".toList
      ∧ parse .primary (scriptSource "a = 1\n  b = 2")
        = .ok ({ parameters := .ofList [(scriptKey, .quoted "a = 1\nb = 2")] }, [])
      ∧ "a = 1\nb = 2" ≠ "a = 1\n  b = 2" := by
  have isScript : IsScript "a = 1\n  b = 2".toList := by decide +kernel
  have closed : ClosedLines "a = 1\n  b = 2".toList "a = 1".toList ["  b = 2\"\"\"".toList] :=
    ⟨by decide +kernel, by decide +kernel, ["a = 1".toList], "  b = 2".toList, by decide +kernel,
      by decide +kernel⟩
  have value : Literal.decodeChars (dropComma "\"\"\"a = 1\nb = 2\"\"\"".toList)
      = .quoted "a = 1\nb = 2" := by
    refine Literal.decodeChars_triple_iff.mpr ⟨by decide +kernel, by decide +kernel⟩
  have entries : entriesOf [codeLine (trimRight "a = 1".toList), "b = 2\"\"\"".toList]
      = some [(scriptKey, .quoted "a = 1\nb = 2")] := by
    have keyed : key? (codeLine (trimRight "a = 1".toList))
        = some (scriptKey.toList, " \"\"\"a = 1".toList) := by decide +kernel
    have read : valueLines (trim " \"\"\"a = 1".toList) ["b = 2\"\"\"".toList]
        = some ("\"\"\"a = 1\nb = 2\"\"\"".toList, []) := by decide +kernel
    rw [entriesOf_cons keyed read, value, entriesOf]
    rfl
  have kept : keptLines ["  b = 2\"\"\"".toList] = ["b = 2\"\"\"".toList] := by decide +kernel
  refine ⟨isScript, @parse_of_closedLines _ _ _ isScript closed (some _) ?_, by decide⟩
  rw [kept, entries]
  rfl

end Definition

end QuizVariants
