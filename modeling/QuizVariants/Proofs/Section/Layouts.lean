import QuizVariants.Proofs.Section.Blocks
import QuizVariants.Proofs.Section.QuotedLines
import QuizVariants.Proofs.Section.Quotes
import QuizVariants.Proofs.Section.Remains

/-! Sections of entries as an author lays them out.
An entry stands on a line of its own, with blanks between its parts, a comma or none, and a comment.
Lines without an entry may stand between the entries, and braces on lines of their own around them.
The section is read as its entries, but for a string in triple quotes that ends in a mark of its own
where a number sign stands behind it.
-/

namespace QuizVariants.Section

open QuizVariants.Text
open QuizVariants.Literal (decodeChars singleQuoted? unquote isQuote scalarText_of_scalar?
  plainText_of_decodeChars exists_inside_of_singleQuoted? PlainText ScalarText)

-----------------------------------------------------------------------------------------
-- Lines
-----------------------------------------------------------------------------------------

/-- Blanks between the parts of a line. -/
structure Gap where
  text : List Char
  blank : Blanks text

/-- The end of a line: blanks, and a comment or none. -/
structure Margin where
  gap : Gap
  comment : List Char
  commented : IsComment comment

def Margin.text (margin : Margin) : List Char :=
  margin.gap.text ++ margin.comment

/-- A text that stands for a key: an identifier, or a string in quotes. -/
def Names (key : String) (text : List Char) : Prop :=
  (isName text = true ∧ key = .ofList text) ∨ singleQuoted? text = some (.quoted key)

/-- An entry as its line writes it. -/
structure WrittenEntry where
  key : String
  literal : Literal
  indent : Gap
  name : List Char
  between : Gap
  before : Gap
  value : List Char
  behind : Gap
  comma : Bool
  margin : Margin
  named : Names key name
  plain : literal.IsPlain
  trimmed : Trimmed value
  read : decodeChars value = literal

namespace WrittenEntry

/-- The entry up to its value. -/
def lead (written : WrittenEntry) : List Char :=
  written.name ++ (written.between.text ++ ':' :: written.before.text)

/-- The comma of the entry, or nothing. -/
def ending (written : WrittenEntry) : List Char :=
  if written.comma then written.behind.text ++ [','] else []

/-- The blanks in front of the comment. -/
def space (written : WrittenEntry) : List Char :=
  (if written.comma then [] else written.behind.text) ++ written.margin.gap.text

/-- The entry without the blanks and the comment around it. -/
def core (written : WrittenEntry) : List Char :=
  written.lead ++ (written.value ++ written.ending)

def line (written : WrittenEntry) : List Char :=
  written.indent.text ++ (written.name ++ (written.between.text ++ ':' :: (written.before.text
    ++ (written.value ++ (written.behind.text ++ ((if written.comma then [','] else [])
      ++ written.margin.text))))))

/-- A string of the value ends early only where no number sign and no three marks in a row stand
behind it, neither in the value nor in a comment. -/
structure Clear (written : WrittenEntry) : Prop where
  behind
    : (scalarsOf written.value).Pairwise (fun text later => EndsEarly text → Harmless later)
  bare : (∃ text ∈ scalarsOf written.value, EndsEarly text) → written.margin.comment = []

instance (written : WrittenEntry) : Decidable written.Clear :=
  decidable_of_iff (_ ∧ _) ⟨fun h => ⟨h.1, h.2⟩, fun h => ⟨h.behind, h.bare⟩⟩

theorem line_eq (written : WrittenEntry)
    : written.line
        = written.indent.text
          ++ (written.core ++ (written.space ++ written.margin.comment)) := by
  unfold line core lead ending space Margin.text
  cases written.comma <;> simp

end WrittenEntry

/-- A line between braces: an entry, or nothing but a comment. -/
inductive Row where
  | remark (margin : Margin)
  | entry (written : WrittenEntry)

namespace Row

def line : Row → List Char
  | .remark margin => margin.text
  | .entry written => written.line

def entry? : Row → Option (String × Literal)
  | .remark _ => none
  | .entry written => some (written.key, written.literal)

def core : Row → List Char
  | .remark _ => []
  | .entry written => written.core

def Clear : Row → Prop
  | .remark _ => True
  | .entry written => written.Clear

instance : (row : Row) → Decidable row.Clear
  | .remark _ => .isTrue trivial
  | .entry written => inferInstanceAs (Decidable written.Clear)

end Row

/-- A pair of braces, each on a line of its own, and the lines outside of them. -/
structure Braces where
  above : List Margin
  opening : Gap
  opened : Margin
  closing : Gap
  closed : Margin
  below : List Margin

namespace Braces

/-- Lines with the braces around them. -/
def lines (braces : Braces) (inside : List (List Char)) : List (List Char) :=
  braces.above.map Margin.text
    ++ (braces.opening.text ++ '{' :: braces.opened.text) :: (inside
    ++ (braces.closing.text ++ '}' :: braces.closed.text) :: braces.below.map Margin.text)

/-- What remains of these lines. -/
def cores (braces : Braces) (inside : List (List Char)) : List (List Char) :=
  braces.above.map (fun _ => [])
    ++ ['{'] :: (inside ++ ['}'] :: braces.below.map (fun _ => []))

end Braces

/-- The lines of a section of entries under distinct keys. -/
structure Layout where
  rows : List Row
  braces : Option Braces
  distinct : ((rows.filterMap Row.entry?).map Prod.fst).Nodup

namespace Layout

/-- The entries of a layout in their order. -/
def table (layout : Layout) : Table Literal :=
  ⟨layout.rows.filterMap Row.entry?, layout.distinct⟩

def lines (layout : Layout) : List (List Char) :=
  match layout.braces with
  | none => layout.rows.map Row.line
  | some braces => braces.lines (layout.rows.map Row.line)

/-- What remains of the lines of a layout. -/
def cores (layout : Layout) : List (List Char) :=
  match layout.braces with
  | none => layout.rows.map Row.core
  | some braces => braces.cores (layout.rows.map Row.core)

def Clear (layout : Layout) : Prop :=
  ∀ row ∈ layout.rows, row.Clear

instance (layout : Layout) : Decidable layout.Clear :=
  List.decidableBAll _ _

end Layout

-----------------------------------------------------------------------------------------
-- Keys
-----------------------------------------------------------------------------------------

/-- A key starts with a letter, an underscore or a mark. -/
theorem Names.exists_cons {key : String} {text : List Char} (h : Names key text)
    : ∃ c rest, text = c :: rest ∧ (startsName c = true ∨ isQuote c = true) := by
  rcases h with ⟨named, -⟩ | quoted
  · cases text with
    | nil => cases named
    | cons c rest => exact ⟨c, rest, rfl, Or.inl (Bool.and_eq_true_iff.mp named).1⟩
  · obtain ⟨mark, inner, content, quote, rfl, -⟩ := exists_inside_of_singleQuoted? quoted
    exact ⟨mark, _, rfl, Or.inr quote⟩

theorem Names.passed {key : String} {text : List Char} (h : Names key text) : Passed text := by
  rcases h with ⟨named, -⟩ | quoted
  · refine passed_of_plain (fun c member => plain_of_isBare ?_)
    exact isBare_of_continuesName (continuesName_of_isName named c member)
  · obtain ⟨mark, inner, content, quote, rfl, inside, -⟩ := exists_inside_of_singleQuoted? quoted
    exact passed_single quote inside

/-- A key is found in front of a colon, whatever blanks stand between them. -/
theorem Names.key?_eq {key : String} {text : List Char} (h : Names key text) {blanks : List Char}
    (blank : Blanks blanks) (rest : List Char)
    : key? (text ++ (blanks ++ ':' :: rest)) = some (key.toList, rest) := by
  have colon : after? [':'] (trimLeft (blanks ++ ':' :: rest)) = some rest := by
    rw [trimLeft_append blank (stops_cons.mpr rfl), after?_singleton]
  rcases h with ⟨named, rfl⟩ | quoted
  · have stops : Stops continuesName (blanks ++ ':' :: rest) := by
      refine Stops.append (fun c first => Bool.eq_false_iff.mpr (fun continues => ?_))
        (stops_cons.mpr rfl)
      have shows := isBlank_of_isBare (isBare_of_continuesName continues)
      exact Bool.noConfusion (shows.symm.trans (blank c (List.mem_of_head? first)))
    rw [key?, name?_append named stops, String.toList_ofList]
    simp only [colon, Option.map_some]
  · obtain ⟨mark, inner, content, quote, rfl, -, same, again⟩ :=
      exists_inside_of_singleQuoted? quoted
    obtain rfl := Literal.quoted.inj same
    have written : mark :: (inner ++ [mark]) ++ (blanks ++ ':' :: rest)
        = mark :: (inner ++ mark :: (blanks ++ ':' :: rest)) := by
      simp
    have unnamed : name? (mark :: (inner ++ mark :: (blanks ++ ':' :: rest))) = none := by
      simp only [isQuote, Bool.or_eq_true, beq_iff_eq] at quote
      rcases quote with rfl | rfl <;> rfl
    rw [written, key?, unnamed, quotedKey?, if_pos quote, again, String.toList_ofList]
    simp [colon]

-----------------------------------------------------------------------------------------
-- What remains of each line
-----------------------------------------------------------------------------------------

/-- In front of a comment plain characters are kept. -/
theorem scanLine_margin {text comment : List Char} (plain : ∀ c ∈ text, c ≠ '#' ∧ isQuote c = false)
    (commented : IsComment comment)
    : scanLine none (text ++ comment) = (text, none) := by
  rw [scanLine_append_of_plain plain, scanLine_comment commented, keepText, List.append_nil]

theorem Margin.remains (margin : Margin) : Remains [] margin.text :=
  .intro (List.forall_mem_nil _) margin.gap.blank margin.commented
    (scanLine_margin (plain_of_blanks margin.gap.blank) margin.commented)

theorem remains_brace (indent : Gap) {brace : Char} (listed : brace ∈ ['{', '}']) (margin : Margin)
    : Remains [brace] (indent.text ++ brace :: margin.text) := by
  have plain : ∀ c ∈ indent.text ++ ([brace] ++ margin.gap.text),
      c ≠ '#' ∧ isQuote c = false := by
    refine List.forall_mem_append.mpr ⟨plain_of_blanks indent.blank, List.forall_mem_cons.mpr
      ⟨?_, plain_of_blanks margin.gap.blank⟩⟩
    rcases List.mem_pair.mp listed with rfl | rfl <;> exact ⟨by decide, rfl⟩
  have scanned := scanLine_margin plain margin.commented
  rw [List.append_assoc, List.append_assoc] at scanned
  exact .intro indent.blank margin.gap.blank margin.commented scanned

namespace WrittenEntry

variable (written : WrittenEntry)

theorem plainText : PlainText written.value :=
  plainText_of_decodeChars written.trimmed (written.read ▸ written.plain)

theorem isEnding : Ending written.ending := by
  unfold ending
  split
  · exact .comma written.behind.blank
  · exact .nil

theorem blanks_space : Blanks written.space := by
  unfold space
  split
  · exact List.forall_mem_append.mpr ⟨List.forall_mem_nil _, written.margin.gap.blank⟩
  · exact List.forall_mem_append.mpr ⟨written.behind.blank, written.margin.gap.blank⟩

/-- A mark may follow the colon. -/
theorem scanLine_lead (rest : List Char)
    : scanLine none (written.lead ++ rest) = keepText written.lead (scanLine none rest) := by
  have plain : ∀ c ∈ written.between.text ++ ':' :: written.before.text,
      c ≠ '#' ∧ isQuote c = false := by
    refine List.forall_mem_append.mpr ⟨plain_of_blanks written.between.blank,
      List.forall_mem_cons.mpr ⟨⟨by decide, rfl⟩, plain_of_blanks written.before.blank⟩⟩
  have stops : Stops isQuote (written.between.text ++ ':' :: written.before.text ++ rest) := by
    rw [List.append_assoc]
    refine Stops.append (fun c first => ?_) (stops_cons.mpr rfl)
    exact (plain_of_blanks written.between.blank c (List.mem_of_head? first)).2
  rw [lead, List.append_assoc, written.named.passed _ stops, scanLine_append_of_plain plain,
    ← keepText_append]

/-- Between the value and the comment there is no mark and no number sign. -/
theorem plain_tail : ∀ c ∈ written.ending ++ written.space, c ≠ '#' ∧ isQuote c = false :=
  List.forall_mem_append.mpr ⟨written.isEnding.plain, plain_of_blanks written.blanks_space⟩

/-- The scanner keeps the value and what follows up to the comment. -/
theorem scanLine_value (clear : written.Clear)
    : scanLine none (written.value ++ (written.ending ++ written.space ++ written.margin.comment))
        = (written.value ++ (written.ending ++ written.space), none) := by
  have plain := written.plain_tail
  have stops : Stops isQuote (written.ending ++ written.space) :=
    fun c first => (plain c (List.mem_of_head? first)).2
  by_cases early : ∃ text ∈ scalarsOf written.value, EndsEarly text
  · rw [clear.bare early, List.append_nil]
    exact scanLine_of_early written.plainText clear.behind early (harmless_of_plain plain) stops
  · have late : ∀ text ∈ scalarsOf written.value, ¬ EndsEarly text :=
      fun text member ends => early ⟨text, member, ends⟩
    have stops' : Stops isQuote (written.ending ++ written.space ++ written.margin.comment) := by
      refine stops.append (fun c first => ?_)
      rw [written.margin.commented c first]
      rfl
    rw [passed_of_plainText written.plainText late _ stops',
      scanLine_margin plain written.margin.commented, keepText]

theorem remains (clear : written.Clear) : Remains written.core written.line := by
  rw [line_eq]
  refine .intro written.indent.blank written.blanks_space written.margin.commented ?_
  have core : written.core ++ (written.space ++ written.margin.comment)
      = written.lead ++ (written.value
        ++ (written.ending ++ written.space ++ written.margin.comment)) := by
    simp [WrittenEntry.core]
  rw [scanLine_append_of_plain (plain_of_blanks written.indent.blank), core, scanLine_lead,
    scanLine_value written clear]
  simp [keepText, WrittenEntry.core]

-----------------------------------------------------------------------------------------
-- Entries are read from what remains
-----------------------------------------------------------------------------------------

/-- What remains of an entry starts with its key. -/
theorem head?_core
    : ∀ c, written.core.head? = some c → startsName c = true ∨ isQuote c = true := by
  intro c first
  obtain ⟨d, rest, name, kind⟩ := written.named.exists_cons
  rw [core, lead, name] at first
  obtain rfl := Option.some.inj first
  exact kind

theorem shown_at_head?_core : ∀ c, written.core.head? = some c → isBlank c = false := by
  intro c first
  rcases written.head?_core c first with starts | quote
  · exact isBlank_of_isBare (isBare_of_continuesName (by rw [continuesName, starts, Bool.true_or]))
  · refine Bool.eq_false_iff.mpr (fun blank => ?_)
    exact Bool.noConfusion ((Literal.plain_of_isBlank blank).2.1.symm.trans quote)

theorem trimmed_value : Trimmed (written.value ++ written.ending) :=
  trimmed_append written.trimmed written.plainText.ne_nil written.isEnding

theorem trimmed_core : Trimmed written.core := by
  refine trimmed_iff.mpr ⟨written.shown_at_head?_core, fun c last => ?_⟩
  have shows : written.value ++ written.ending ≠ [] :=
    List.append_ne_nil_of_left_ne_nil written.plainText.ne_nil _
  rw [core, List.getLast?_append_of_ne_nil _ shows] at last
  exact (trimmed_iff.mp written.trimmed_value).2 c last

/-- What remains of an entry is read as the entry. -/
theorem entriesOf_core (rest : List (List Char))
    : entriesOf (written.core :: rest)
        = (entriesOf rest).map ((written.key, written.literal) :: ·) := by
  have split : written.core = written.name ++ (written.between.text
      ++ ':' :: (written.before.text ++ (written.value ++ written.ending))) := by
    simp [core, lead]
  have value : trim (written.before.text ++ (written.value ++ written.ending))
      = written.value ++ written.ending := by
    have trims := trim_between_blanks written.trimmed_value written.before.blank
      (List.forall_mem_nil _)
    rwa [List.append_nil] at trims
  have taken : valueLines (trim (written.before.text ++ (written.value ++ written.ending))) rest
      = some (written.value ++ written.ending, rest) := by
    rw [value]
    exact valueLines_of_plainText written.plainText written.isEnding rest
  rw [split, entriesOf_cons (written.named.key?_eq written.between.blank _) taken,
    dropComma_append written.plainText written.trimmed written.isEnding, written.read,
    String.ofList_toList]

end WrittenEntry

namespace Row

theorem trimmed_core (row : Row) : Trimmed row.core := by
  cases row with
  | remark _ => exact trimmed_nil
  | entry written => exact written.trimmed_core

/-- What remains of a row starts neither with a brace nor like a header. -/
theorem head?_core_ne (row : Row) {c : Char} (listed : c ∈ ['{', '<'])
    : row.core.head? ≠ some c := by
  cases row with
  | remark _ => exact nofun
  | entry written =>
      intro first
      have kind := written.head?_core c first
      rcases List.mem_pair.mp listed with rfl | rfl <;> exact absurd kind (by decide)

theorem remains {row : Row} (clear : row.Clear) : Remains row.core row.line := by
  cases row with
  | remark margin => exact margin.remains
  | entry written => exact written.remains clear

/-- The rows are read as their entries, by induction on them. -/
theorem entriesOf_showing (rows : List Row)
    : entriesOf (showing (rows.map Row.core)) = some (rows.filterMap Row.entry?) := by
  induction rows with
  | nil => rw [List.map_nil, showing, List.filter_nil, entriesOf]; rfl
  | cons row rows ih =>
      cases row with
      | remark margin => exact ih
      | entry written =>
          have shows : written.core ≠ [] := by
            obtain ⟨c, rest, name, -⟩ := written.named.exists_cons
            rw [WrittenEntry.core, WrittenEntry.lead, name]
            exact List.cons_ne_nil _ _
          have first : (Row.entry written).core = written.core := rfl
          rw [List.map_cons, first, showing_cons shows, written.entriesOf_core, ih]
          rfl

end Row

/-- What remains of each of some things remains of their lines. -/
theorem forall₂_remains {things : Type} {texts : List things} {core line : things → List Char}
    (h : ∀ text ∈ texts, Remains (core text) (line text))
    : List.Forall₂ Remains (texts.map core) (texts.map line) := by
  rw [List.forall₂_map_left_iff, List.forall₂_map_right_iff, List.forall₂_same]
  exact h

namespace Braces

variable (braces : Braces) {cores : List (List Char)}

theorem remains {inside : List (List Char)} (h : List.Forall₂ Remains cores inside)
    : List.Forall₂ Remains (braces.cores cores) (braces.lines inside) := by
  have margins (texts : List Margin)
      : List.Forall₂ Remains (texts.map (fun _ => [])) (texts.map Margin.text) :=
    forall₂_remains (fun margin _ => margin.remains)
  have opening := remains_brace braces.opening (List.mem_cons_self) braces.opened
  have closing := remains_brace braces.closing (by decide : '}' ∈ ['{', '}']) braces.closed
  exact List.rel_append (margins braces.above)
    (.cons opening (List.rel_append h (.cons closing (margins braces.below))))

theorem showing_cores : showing (braces.cores cores) = ['{'] :: (showing cores ++ [['}']]) := by
  simp [Braces.cores, showing]

theorem forall_mem_cores {holds : List Char → Prop} (h : ∀ core ∈ cores, holds core)
    (empty : holds []) (opening : holds ['{']) (closing : holds ['}'])
    : ∀ core ∈ braces.cores cores, holds core := by
  have margins (texts : List Margin) : ∀ core ∈ texts.map (fun _ => []), holds core :=
    List.forall_mem_map.mpr (fun _ _ => empty)
  refine List.forall_mem_append.mpr ⟨margins _, List.forall_mem_cons.mpr ⟨opening, ?_⟩⟩
  exact List.forall_mem_append.mpr ⟨h, List.forall_mem_cons.mpr ⟨closing, margins _⟩⟩

end Braces

namespace Layout

variable {layout : Layout}

theorem remains (clear : layout.Clear) : List.Forall₂ Remains layout.cores layout.lines := by
  have rows : List.Forall₂ Remains (layout.rows.map Row.core) (layout.rows.map Row.line) :=
    forall₂_remains (fun row member => Row.remains (clear row member))
  unfold cores lines
  cases layout.braces with
  | none => exact rows
  | some braces => exact braces.remains rows

/-- What remains of a line is trimmed and does not start like a header. -/
theorem shown_cores (layout : Layout)
    : ∀ core ∈ layout.cores, Trimmed core ∧ core.head? ≠ some '<' := by
  have rows : ∀ core ∈ layout.rows.map Row.core, Trimmed core ∧ core.head? ≠ some '<' :=
    List.forall_mem_map.mpr (fun row _ => ⟨row.trimmed_core, row.head?_core_ne (by decide)⟩)
  unfold cores
  cases layout.braces with
  | none => exact rows
  | some braces =>
      exact braces.forall_mem_cores rows ⟨rfl, by decide⟩ ⟨rfl, by decide⟩ ⟨rfl, by decide⟩

/-- The entries of a section are those of its layout, by cases on whether it has braces. -/
theorem mapping?_text {raw : Raw} (literals : holdsLiterals raw.name = true)
    (laid : raw.body = layout.lines) (plain : ∀ line ∈ raw.body, '\n' ∉ line)
    (clear : layout.Clear)
    : mapping? raw.text = some layout.table := by
  have table : (some (layout.rows.filterMap Row.entry?)).map Table.ofList = some layout.table :=
    congrArg some (Table.ofList_entries layout.table)
  have remains : List.Forall₂ Remains layout.cores raw.body := laid ▸ layout.remains clear
  have trimmed : ∀ core ∈ layout.cores, Trimmed core :=
    fun core member => (layout.shown_cores core member).1
  rw [← table, ← Row.entriesOf_showing]
  cases braces : layout.braces with
  | none =>
      have rows : layout.cores = layout.rows.map Row.core := by rw [cores, braces]
      rw [← rows]
      refine mapping?_text_of_remains literals remains trimmed plain (fun core first => ?_)
      rw [rows] at first
      obtain ⟨row, -, rfl⟩ := List.mem_map.mp (List.mem_filter.mp (List.mem_of_head? first)).1
      exact row.head?_core_ne (by decide)
  | some braces' =>
      refine mapping?_text_of_braces literals remains trimmed plain ?_
      rw [cores, braces]
      exact braces'.showing_cores

end Layout

/-- A section of parameters is read as the entries that it writes, in their order and without a
warning, whatever noise stands around them. -/
theorem readPrimary_layout {layout : Layout} (clear : layout.Clear) {source header : List Char}
    (headed : header? header = some "parameters") (laid : lines source = header :: layout.lines)
    : readPrimary source = .ok (.ofList [("parameters", .mapping layout.table)], []) := by
  have found : ∀ piece ∈ [Piece.mk "parameters" header layout.lines], piece.Found header? :=
    List.forall_mem_singleton.mpr
      ⟨headed, header?_of_remains (layout.remains clear) layout.shown_cores⟩
  have written : (numbered (lines source)).map Prod.snd
      = [Piece.mk "parameters" header layout.lines].flatMap Piece.lines := by
    rw [map_snd_numbered, laid, List.flatMap_singleton]
    rfl
  obtain ⟨raws, divided, sections⟩ :=
    exists_split_of_pieces found written (List.pairwise_singleton _ _)
  obtain ⟨⟨name, number, body⟩, rfl, same⟩ := List.map_eq_singleton_iff.mp sections
  obtain ⟨rfl, rfl⟩ : name = "parameters" ∧ body = layout.lines := Prod.mk.inj same
  have plain : ∀ line ∈ layout.lines, '\n' ∉ line := by
    intro line member
    have listed : line ∈ lines source := laid ▸ List.mem_cons_of_mem _ member
    exact newline_not_mem_of_mem_lines listed
  have read : decode "parameters" (Raw.text ⟨"parameters", number, layout.lines⟩)
      = (.mapping layout.table, []) := by
    have literals : holdsLiterals "parameters" = true := rfl
    rw [decode, if_pos literals, Layout.mapping?_text literals rfl plain clear]
  rw [readPrimary, divided]
  change Except.ok _ = _
  simp only [List.map_cons, List.map_nil, List.flatMap_cons, List.flatMap_nil, read]
  rfl

/-- An entry whose string ends early, on a line with this margin. -/
def earlyEntry (margin : Margin) : WrittenEntry where
  key := "a"
  literal := .quoted "say \"hi\""
  indent := ⟨[], List.forall_mem_nil _⟩
  name := "a".toList
  between := ⟨[], List.forall_mem_nil _⟩
  before := ⟨" ".toList, by decide⟩
  value := "\"\"\"say \"hi\"\"\"\"".toList
  behind := ⟨[], List.forall_mem_nil _⟩
  comma := false
  margin := margin
  named := Or.inl ⟨by decide, rfl⟩
  plain := trivial
  trimmed := rfl
  read := rfl

/-- An entry whose key, value and comment hold number signs, marks and braces. -/
def listEntry : WrittenEntry where
  key := "k # x"
  literal := .list [.quoted "x, \x7d", .quoted "#"]
  indent := ⟨"\t".toList, by decide⟩
  name := "'k # x'".toList
  between := ⟨" ".toList, by decide⟩
  before := ⟨[], List.forall_mem_nil _⟩
  value := "[\"x, \x7d\", '#']".toList
  behind := ⟨" ".toList, by decide⟩
  comma := true
  margin := ⟨⟨" ".toList, by decide⟩, "# it's \"\"\" \x7d".toList, by decide⟩
  named := Or.inr rfl
  plain := by simp [Literal.IsPlain, Literal.IsScalar]
  trimmed := rfl
  read := rfl

/-- Both entries between braces, with a remark between them. -/
def noisyLayout : Layout where
  rows := [.entry listEntry, .remark ⟨⟨"  ".toList, by decide⟩, "# a: 2".toList, by decide⟩,
    .entry (earlyEntry ⟨⟨" ".toList, by decide⟩, [], nofun⟩)]
  braces := some
    { above := [⟨⟨[], List.forall_mem_nil _⟩, [], nofun⟩]
      opening := ⟨" ".toList, by decide⟩
      opened := ⟨⟨" ".toList, by decide⟩, "# \"\"\"".toList, by decide⟩
      closing := ⟨[], List.forall_mem_nil _⟩
      closed := ⟨⟨[], List.forall_mem_nil _⟩, [], nofun⟩
      below := [] }
  distinct := by decide

def noisySource : List Char :=
  layOut (["<<Parameters>> # all",
    "",
    " \x7b # \"\"\"",
    "\t'k # x' :[\"x, \x7d\", '#'] , # it's \"\"\" \x7d",
    "  # a: 2",
    "a: \"\"\"say \"hi\"\"\"\" ",
    "\x7d"].map String.toList)

theorem readPrimary_noisySource
    : readPrimary noisySource = .ok (.ofList [("parameters", .mapping noisyLayout.table)], [])
      ∧ noisyLayout.table.entries
        = [("k # x", .list [.quoted "x, \x7d", .quoted "#"]), ("a", .quoted "say \"hi\"")] := by
  have headed : header? "<<Parameters>> # all".toList = some "parameters" := rfl
  have laid : lines noisySource = "<<Parameters>> # all".toList :: noisyLayout.lines := by decide
  exact ⟨readPrimary_layout (by decide) headed laid, rfl⟩

/-- A comment behind a string that ends early. -/
def spilledLayout : Layout where
  rows := [.entry (earlyEntry ⟨⟨" ".toList, by decide⟩, "# c".toList, by decide⟩)]
  braces := none
  distinct := by decide

def spilledSource : List Char :=
  layOut (["<<parameters>>", "a: \"\"\"say \"hi\"\"\"\" # c"].map String.toList)

/-- The comment is taken for a part of a string, and the section loses its entry. -/
theorem readPrimary_spilledSource
    : lines spilledSource = "<<parameters>>".toList :: spilledLayout.lines
      ∧ spilledLayout.table.entries = [("a", .quoted "say \"hi\"")]
      ∧ readPrimary spilledSource
        = .ok (.ofList [("parameters", .mapping .empty)], [.malformedMapping "parameters"]) := by
  have kept : Kept "a: \"\"\"say \"hi\"\"\"\" # c".toList := by
    simp [Kept, scanLine, keep, isQuote, atLineEnd]
  have text : Raw.text ⟨"parameters", 1, spilledLayout.lines⟩ = layOut spilledLayout.lines := by
    rw [Raw.text_of_kept rfl (List.forall_mem_singleton.mpr ⟨kept, by decide⟩)]
    rfl
  have shown : shownLines (insideBraces (trim (layOut spilledLayout.lines)))
      = spilledLayout.lines := by decide
  have unread : entriesOf spilledLayout.lines = none := by
    have keyed : key? "a: \"\"\"say \"hi\"\"\"\" # c".toList
        = some ("a".toList, " \"\"\"say \"hi\"\"\"\" # c".toList) := rfl
    have unclosed : valueLines (trim " \"\"\"say \"hi\"\"\"\" # c".toList) [] = none := rfl
    change entriesOf ["a: \"\"\"say \"hi\"\"\"\" # c".toList] = none
    rw [entriesOf]
    simp only [keyed]
    split
    · rfl
    · next found => cases unclosed.symm.trans found
  have read : decode "parameters" (Raw.text ⟨"parameters", 1, spilledLayout.lines⟩)
      = (.mapping .empty, [.malformedMapping "parameters"]) := by
    have literals : holdsLiterals "parameters" = true := rfl
    rw [decode, if_pos literals, mapping?, text, shown, unread, Option.map_none]
  have divided : split header? (numbered (lines spilledSource))
      = .ok [⟨"parameters", 1, spilledLayout.lines⟩] := rfl
  refine ⟨by decide, rfl, ?_⟩
  rw [readPrimary, divided]
  change Except.ok _ = _
  simp only [List.map_cons, List.map_nil, List.flatMap_cons, List.flatMap_nil, read]
  rfl

end QuizVariants.Section
