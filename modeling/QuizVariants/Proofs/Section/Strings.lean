import QuizVariants.Proofs.Section.Header
import QuizVariants.Proofs.Section.Entries
import QuizVariants.Proofs.Text.Joined

/-! Strings over several lines.
A string in triple quotes goes on over the lines of a section of literals up to the marks that close
it. The section keeps of its lines what shows: lines lose the blanks at their ends, and a line of
blanks is lost. Lines of marks, blanks and commas alone may close the string that they stand in.
-/

namespace QuizVariants.Section

open QuizVariants.Text
open QuizVariants.Literal (isQuote triple)

-----------------------------------------------------------------------------------------
-- What a section of literals keeps of its lines
-----------------------------------------------------------------------------------------

/-- The lines that show something, without the blanks around them. -/
def keptLines (body : List (List Char)) : List (List Char) :=
  (body.filter (fun line => !allBlank line)).map trim

theorem trim_ne_nil {line : List Char} (shows : allBlank line = false) : trim line ≠ [] := by
  obtain ⟨blanks, split, blank⟩ := exists_leading_blanks line
  cases shown : trimLeft line with
  | nil =>
      rw [shown, List.append_nil] at split
      have all : allBlank line = true := List.all_eq_true.mpr (split ▸ blank)
      rw [all] at shows
      exact nomatch shows
  | cons c rest =>
      have first : isBlank c = false := isBlank_of_head?_trimLeft (congrArg List.head? shown)
      have right : trimRight (c :: rest) = c :: trimRight rest :=
        trimRight_append_cons [] first rest
      rw [trim, shown, right]
      exact List.cons_ne_nil _ _

theorem trimRight_ne_nil {line : List Char} (shows : allBlank line = false)
    : trimRight line ≠ [] := by
  intro none
  refine trim_ne_nil shows ?_
  rw [← trim_trimRight, none]
  rfl

theorem not_mem_trimRight {c : Char} {line : List Char} (h : c ∉ line) : c ∉ trimRight line := by
  obtain ⟨blanks, split, _⟩ := exists_blanks line
  rw [split] at h
  exact fun member => h (List.mem_append_left _ member)

theorem not_mem_keptLines {c : Char} {body : List (List Char)} (h : ∀ line ∈ body, c ∉ line)
    : ∀ line ∈ keptLines body, c ∉ line := by
  intro line member
  obtain ⟨text, found, rfl⟩ := List.mem_map.mp member
  have fresh := h text (List.mem_filter.mp found).1
  exact not_mem_trimRight (fun inside => fresh ((List.dropWhile_suffix _).subset inside))

/-- What is left of a line that shows something can stand on a line. -/
theorem oneLine_trimRight {line : List Char} (plain : '\n' ∉ line) : OneLine (trimRight line) := by
  refine ⟨not_mem_trimRight plain, fun ending => ?_⟩
  exact absurd (isBlank_of_getLast?_trimRight ending) (by decide)

/-- Lines are kept as they stand exactly if each of them is trimmed and shows something. -/
theorem keptLines_eq_self_iff {body : List (List Char)}
    : keptLines body = body ↔ ∀ line ∈ body, Trimmed line ∧ line ≠ [] := by
  constructor
  · intro same line member
    rw [← same] at member
    obtain ⟨text, found, rfl⟩ := List.mem_map.mp member
    exact ⟨trimmed_trim text, trim_ne_nil (by simpa using (List.mem_filter.mp found).2)⟩
  · intro shown
    have all : body.filter (fun line => !allBlank line) = body := by
      refine List.filter_eq_self.mpr (fun line member => ?_)
      rw [(shown line member).1.allBlank_eq (shown line member).2]
      rfl
    rw [keptLines, all]
    exact map_eq_self (fun line member => (shown line member).1)

/-- Lines without blanks at their ends are read without those at their starts. -/
theorem mapping?_layOut_of_ends {c : Char} {first : List Char} {rest : List (List Char)}
    (shows : isBlank c = false) (bare : c ≠ '{')
    (ends : ∀ line ∈ (c :: first) :: rest, ∃ text, line = trimRight text
      ∧ allBlank text = false ∧ '\n' ∉ text)
    : mapping? (layOut ((c :: first) :: rest))
        = (entriesOf (((c :: first) :: rest).map trim)).map Table.ofList := by
  have starts : (joinWith ['\n'] ((c :: first) :: rest)).head? = some c :=
    head?_joinWith (List.cons_ne_nil _ _) _ _
  have trimmed : Trimmed (joinWith ['\n'] ((c :: first) :: rest)) := by
    refine trimmed_iff.mpr ⟨fun d start => ?_, fun d ending => ?_⟩
    · obtain rfl := Option.some.inj (starts.symm.trans start)
      exact shows
    · obtain ⟨front, last, split⟩ := List.eq_nil_or_concat ((c :: first) :: rest)
        |>.resolve_left (List.cons_ne_nil _ _)
      rw [List.concat_eq_append] at split
      obtain ⟨text, rfl, shown, _⟩ := ends last (by simp [split])
      rw [split, getLast?_joinWith (trimRight_ne_nil shown)] at ending
      exact isBlank_of_getLast?_trimRight ending
  have unbraced : after? ['{'] (joinWith ['\n'] ((c :: first) :: rest)) = none := by
    refine after?_eq_none (fun start => ?_) _
    exact bare (Option.some.inj (starts.symm.trans start))
  have found : lines (joinWith ['\n'] ((c :: first) :: rest)) = (c :: first) :: rest := by
    refine lines_joinWith_of_oneLine (fun line member => ?_)
    obtain ⟨text, rfl, shown, plain⟩ := ends line member
    exact ⟨oneLine_trimRight plain, trimRight_ne_nil shown⟩
  have kept : (((c :: first) :: rest).map trim).filter (fun line => !line.isEmpty)
      = ((c :: first) :: rest).map trim := by
    refine List.filter_eq_self.mpr (List.forall_mem_map.mpr (fun line member => ?_))
    obtain ⟨text, rfl, shown, _⟩ := ends line member
    rw [trim_trimRight]
    simpa using trim_ne_nil shown
  rw [mapping?, layOut_eq_joinWith (List.cons_ne_nil _ _),
    trimmed.trim_append_of_isBlank (by decide), insideBraces, unbraced, Option.bind_none,
    Option.getD_none, shownLines, found, kept]

/-- The entries of a section of literals without comments are those of the lines that are kept. -/
theorem mapping?_text {raw : Raw} {c : Char} {first : List Char} {rest : List (List Char)}
    (literals : holdsLiterals raw.name = true) (whole : literalLines none raw.body = raw.body)
    (plain : ∀ line ∈ raw.body, '\n' ∉ line) (starts : raw.body = (c :: first) :: rest)
    (shows : isBlank c = false) (bare : c ≠ '{')
    : mapping? raw.text = (entriesOf (keptLines raw.body)).map Table.ofList := by
  have text : raw.text
      = layOut ((raw.body.filter (fun line => !allBlank line)).map trimRight) := by
    rw [Raw.text, literals, if_pos rfl, whole, layOut, List.flatMap_map]
  have right : trimRight (c :: first) = c :: trimRight first := trimRight_append_cons [] shows first
  have first' : (raw.body.filter (fun line => !allBlank line)).map trimRight
      = (c :: trimRight first) :: (rest.filter (fun line => !allBlank line)).map trimRight := by
    rw [starts, List.filter_cons_of_pos (by simp [allBlank, shows]), List.map_cons, right]
  have ends : ∀ line ∈ (raw.body.filter (fun line => !allBlank line)).map trimRight,
      ∃ text, line = trimRight text ∧ allBlank text = false ∧ '\n' ∉ text := by
    refine List.forall_mem_map.mpr (fun line member => ⟨line, rfl, ?_⟩)
    obtain ⟨inside, shown⟩ := List.mem_filter.mp member
    exact ⟨by simpa using shown, plain line inside⟩
  rw [first'] at ends
  have trims : trim ∘ trimRight = trim := funext trim_trimRight
  rw [text, first', mapping?_layOut_of_ends shows bare ends, ← first', List.map_map, trims,
    keptLines]

-----------------------------------------------------------------------------------------
-- Strings that stay open at the end of a line
-----------------------------------------------------------------------------------------

/-- A mark that is tripled opens a string over several lines. -/
theorem scanLine_triple {mark : Char} (quote : isQuote mark = true) (rest : List Char)
    : scanLine none (triple mark ++ rest)
        = keepText (triple mark) (scanLine (some ⟨mark, true⟩) rest) := by
  change scanLine none (mark :: mark :: mark :: rest) = _
  rw [scanLine.eq_6, if_neg (ne_of_kind quote rfl), if_pos quote, if_pos ⟨rfl, rfl⟩]
  rfl

/-- A line inside of a string is kept, and leaves it open; by induction on the line. -/
theorem scanLine_inside {mark : Char} {line : List Char} (h : ¬ triple mark <:+: line)
    : scanLine (some ⟨mark, true⟩) line = (line, some ⟨mark, true⟩) := by
  induction line with
  | nil => rw [scanLine.eq_1]; rfl
  | cons c line ih =>
      have rest := ih (fun within => h (within.trans (List.suffix_cons c line).isInfix))
      rcases line with _ | ⟨d, _ | ⟨e, line⟩⟩
      · rw [scanLine.eq_3 mark c [] (by simp), rest]
        rfl
      · rw [scanLine.eq_3 mark c [d] (by simp), rest]
        rfl
      · have open' : ¬ (c = mark ∧ d = mark ∧ e = mark) := by
          rintro ⟨rfl, rfl, rfl⟩
          exact h (List.prefix_append (triple e) line).isInfix
        rw [scanLine.eq_2, if_neg open', rest]
        rfl

/-- The marks behind a line close its string, unless they close it one character too early; by
induction on the line. -/
theorem scanLine_closing {mark : Char} {line : List Char} (h : ¬ triple mark <:+: line)
    (ending : line.getLast? ≠ some mark) (rest : List Char)
    : scanLine (some ⟨mark, true⟩) (line ++ (triple mark ++ rest))
        = keepText (line ++ triple mark) (scanLine none rest) := by
  induction line with
  | nil =>
      change scanLine (some ⟨mark, true⟩) (mark :: mark :: mark :: rest) = _
      rw [scanLine.eq_2, if_pos ⟨rfl, rfl, rfl⟩]
      rfl
  | cons c line ih =>
      have inside : ¬ triple mark <:+: line :=
        fun within => h (within.trans (List.suffix_cons c line).isInfix)
      cases line with
      | nil =>
          have other : ¬ (c = mark ∧ mark = mark ∧ mark = mark) :=
            fun same => ending (congrArg some same.1)
          have behind := ih inside (Option.some_ne_none mark).symm
          change scanLine (some ⟨mark, true⟩) (c :: mark :: mark :: (mark :: rest)) = _
          rw [scanLine.eq_2, if_neg other]
          exact congrArg (keep c) behind
      | cons d line =>
          rw [List.getLast?_cons_cons] at ending
          have behind := ih inside ending
          have open' : ¬ (c = mark ∧ d = mark
              ∧ (line ++ (triple mark ++ rest)).head? = some mark) := by
            rintro ⟨rfl, rfl, third⟩
            cases line with
            | nil => exact ending rfl
            | cons e line =>
                obtain rfl := Option.some.inj third
                exact h (List.prefix_append (triple e) line).isInfix
          obtain ⟨e, more, split⟩ : ∃ e more, line ++ (triple mark ++ rest) = e :: more :=
            List.exists_cons_of_ne_nil (List.append_ne_nil_of_right_ne_nil _ (List.cons_ne_nil _ _))
          rw [List.cons_append, split] at behind
          rw [split] at open'
          rw [List.cons_append, List.cons_append, split, scanLine.eq_2,
            if_neg (fun same => open' ⟨same.1, same.2.1, congrArg some same.2.2⟩), behind]
          rfl

/-- The lines of a string are kept up to the marks that close it, by induction on the lines. -/
theorem literalLines_string {mark : Char} {front : List (List Char)} {last : List Char}
    (h : ∀ line ∈ front ++ [last], ¬ triple mark <:+: line) (ending : last.getLast? ≠ some mark)
    : literalLines (some ⟨mark, true⟩) (front ++ [last ++ triple mark])
        = front ++ [last ++ triple mark] := by
  induction front with
  | nil =>
      have whole := scanLine_closing (h last (by simp)) ending []
      rw [List.append_nil, scanLine.eq_1, keepText, List.append_nil] at whole
      rw [List.nil_append, literalLines, whole]
      rfl
  | cons line front ih =>
      obtain ⟨first, others⟩ := List.forall_mem_cons.mp h
      rw [List.cons_append, literalLines, scanLine_inside first]
      exact congrArg (List.cons line) (ih others)

/-- A string may stand behind characters that start neither a comment nor a string. -/
theorem literalLines_opened {key : List Char} {front : List (List Char)} {last first : List Char}
    {rest : List (List Char)} (plain : ∀ c ∈ key, c ≠ '#' ∧ isQuote c = false)
    (h : ∀ line ∈ front ++ [last], ¬ triple '"' <:+: line) (ending : last.getLast? ≠ some '"')
    (split : front ++ [last ++ triple '"'] = first :: rest)
    : literalLines none ((key ++ (triple '"' ++ first)) :: rest)
        = (key ++ (triple '"' ++ first)) :: rest := by
  have inside := literalLines_string h ending
  rw [split, literalLines] at inside
  obtain ⟨kept, later⟩ := List.cons.inj inside
  rw [literalLines, scanLine_append_of_plain plain, scanLine_triple rfl]
  simp only [keepText]
  rw [kept, later]

end QuizVariants.Section
