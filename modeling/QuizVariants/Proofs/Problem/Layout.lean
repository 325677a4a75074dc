import QuizVariants.Proofs.Markup.Cleanup
import QuizVariants.Proofs.Section.Blocks
import QuizVariants.Proofs.Section.Entries
import QuizVariants.Proofs.Section.Items

/-! Sources of definitions.
A definition is written as a row of blocks, each of which is left out when it has nothing to hold.
-/

namespace QuizVariants.Definition

open QuizVariants.Section
open QuizVariants.Text

/-- The names of the sections of a source, in the order in which they are written. -/
def sectionNames : List String :=
  ["info", "parameters", "statement", "answer", "solution", "choices"]

/-- The names of the sections whose content is no entry with information. -/
def bodyNames : List String :=
  ["parameters", "statement", "answer", "solution", "choices"]

/-- The header of a section is found by its name. -/
theorem header?_headerLine {name : String} (h : name ∈ sectionNames)
    : header? (headerLine name) = some name ∧ OneLine (headerLine name) := by
  simp only [sectionNames, List.mem_cons, List.not_mem_nil, or_false] at h
  rcases h with rfl | rfl | rfl | rfl | rfl | rfl <;> exact ⟨by decide, by decide, by decide⟩

-----------------------------------------------------------------------------------------
-- A section is written as its block
-----------------------------------------------------------------------------------------

/-- The block of a section of entries. -/
def mappingBlocks (name : String) (entries : List (String × Literal)) : List Block :=
  if entries.isEmpty then [] else [⟨name, entries.map entryLine, .mapping (.ofList entries)⟩]

/-- What a section of display text makes of a text: its lines without comments, put on one line and
cleaned. -/
def reread (text : String) : String :=
  .ofList (Markup.clean (flatten (Raw.text ⟨"statement", 0, lines (text.toList ++ ['\n'])⟩)))

theorem reread_empty : reread "" = "" := by
  have none : flatten (Raw.text ⟨"statement", 0, lines ("".toList ++ ['\n'])⟩) = [] := rfl
  rw [reread, none, Markup.clean_of_plain List.not_mem_nil List.not_mem_nil]

/-- The block of a section of display text, whatever lines the text has. -/
def displayBlocks (name text : String) : List Block :=
  if text == "" then [] else [⟨name, lines (text.toList ++ ['\n']), .text (reread text)⟩]

/-- A choice that a section of choices can hold: its first line and the lines after it. -/
def IsChoice (choice : String) (item : List Char × List (List Char)) : Prop :=
  choice = .ofList (itemText item) ∧ IsItem item.1 item.2

/-- Choices that are representable one by one are a list of items, by induction on them. -/
theorem exists_items {choices : List String} (h : ∀ choice ∈ choices, ∃ item, IsChoice choice item)
    : ∃ items : List (List Char × List (List Char)),
        choices = items.map (fun item => .ofList (itemText item))
        ∧ ∀ item ∈ items, IsItem item.1 item.2 := by
  induction choices with
  | nil => exact ⟨[], rfl, nofun⟩
  | cons choice choices ih =>
      obtain ⟨⟨item, written, whole⟩, others⟩ := List.forall_mem_cons.mp h
      obtain ⟨items, rfl, wholes⟩ := ih others
      exact ⟨item :: items, by rw [written]; rfl, List.forall_mem_cons.mpr ⟨whole, wholes⟩⟩

/-- The block of the choices. -/
def choicesBlocks (items : List (List Char × List (List Char))) : List Block :=
  if items.isEmpty then []
  else
    [⟨"choices", items.flatMap (fun item => dashLine item.1 :: item.2),
      .items (items.map (fun item => .ofList (itemText item)))⟩]

/-- What a block adds to the sections of a source. -/
def entryOf (block : Block) : String × Content :=
  (block.name, block.content)

theorem names_mappingBlocks (name : String) (entries : List (String × Literal))
    : ((mappingBlocks name entries).map Block.name).Sublist [name] := by
  unfold mappingBlocks
  split <;> simp

theorem names_choicesBlocks (items : List (List Char × List (List Char)))
    : ((choicesBlocks items).map Block.name).Sublist ["choices"] := by
  unfold choicesBlocks
  split <;> simp

theorem names_displayBlocks (name text : String)
    : ((displayBlocks name text).map Block.name).Sublist [name] := by
  unfold displayBlocks
  split <;> simp

/-- Laid out blocks. -/
def layOutBlocks (blocks : List Block) : List Char :=
  layOut (blocks.flatMap Block.lines)

theorem toString_text (text : String) : toString text = text :=
  rfl

/-- A section of entries is written as its block. -/
theorem toList_mappingSource (name : String) (entries : List (String × Literal))
    : (mappingSource name entries).toList = layOutBlocks (mappingBlocks name entries) := by
  unfold mappingSource mappingBlocks
  split
  · rfl
  · simp [layOutBlocks, Block.lines, headerLine, layOut, entryLine, String.toList_join,
      List.flatMap_map, toString_text]

/-- A section of display text stands on the lines of its block. -/
theorem standsOn_textSource {name : String} (header : OneLine (headerLine name)) (text : String)
    : StandsOn (textSource name text).toList ((displayBlocks name text).flatMap Block.lines) := by
  unfold textSource displayBlocks
  split
  · exact standsOn_nil
  · have first : StandsOn (layOut [headerLine name]) [headerLine name] :=
      standsOn_layOut (List.forall_mem_singleton.mpr header)
    have both := first.append (standsOn_newline text.toList)
    simpa [Block.lines, headerLine, layOut, toString_text] using both

/-- A choice is written behind a dash, its lines as they are. -/
theorem layOut_item (item : List Char × List (List Char))
    : layOut (dashLine item.1 :: item.2) = '-' :: ' ' :: itemText item ++ ['\n'] := by
  rw [layOut_eq_joinWith (List.cons_ne_nil _ _), itemText]
  cases item.2 <;> simp [dashLine, joinWith]

theorem toList_choicesSource (items : List (List Char × List (List Char)))
    : (choicesSource (items.map (fun item => .ofList (itemText item)))).toList
        = layOutBlocks (choicesBlocks items) := by
  cases items with
  | nil => rfl
  | cons item items =>
      have lines (items : List (List Char × List (List Char)))
          : layOut (items.flatMap (fun item => dashLine item.1 :: item.2))
            = items.flatMap (fun item => '-' :: ' ' :: itemText item ++ ['\n']) := by
        rw [layOut, List.flatMap_assoc]
        exact List.flatMap_congr (fun item _ => layOut_item item)
      have block : layOutBlocks (choicesBlocks (item :: items))
          = headerLine "choices" ++ '\n' :: layOut
              ((item :: items).flatMap (fun item => dashLine item.1 :: item.2)) := by
        simp [layOutBlocks, choicesBlocks, Block.lines, layOut]
      rw [block, lines]
      simp [choicesSource, headerLine, String.toList_join, List.flatMap_map, toString_text]

-----------------------------------------------------------------------------------------
-- A block is read as the content of its section
-----------------------------------------------------------------------------------------

/-- The block of a section of literals is read if each of them fits its line. -/
theorem reads_mappingBlocks {name : String} (literals : name ∈ ["info", "parameters"])
    {entries : List (String × Literal)} (distinct : (entries.map Prod.fst).Nodup)
    (fits : ∀ entry ∈ entries, FitsLine entry.2)
    : ∀ block ∈ mappingBlocks name entries, block.Reads := by
  have holds : holdsLiterals name = true := by
    rcases List.mem_pair.mp literals with rfl | rfl <;> rfl
  have header : header? (headerLine name) = some name ∧ OneLine (headerLine name) := by
    rcases List.mem_pair.mp literals with rfl | rfl <;> exact header?_headerLine (by decide)
  have noHeader (entry : String × Literal) : header? (entryLine entry) = none :=
    header?_eq_none (trimLeft_eq_self_iff.mpr (isBlank_of_head?_entryLine entry))
      (head?_entryLine_ne entry rfl (by decide))
  intro block member
  unfold mappingBlocks at member
  split at member
  · exact absurd member List.not_mem_nil
  · obtain rfl := List.mem_singleton.mp member
    refine ⟨header.1, ?_, ?_, ?_⟩
    · intro line inside
      obtain ⟨entry, _, rfl⟩ := List.mem_map.mp inside
      exact noHeader entry
    · intro line inside
      rcases List.mem_cons.mp inside with rfl | inside
      · exact header.2
      · obtain ⟨entry, found, rfl⟩ := List.mem_map.mp inside
        exact oneLine_entryLine (fits entry found).keeps.plain (fits entry found).trimmed
    · have body : Raw.text ⟨name, 0, entries.map entryLine⟩ = layOut (entries.map bodyLine) := by
        rw [Raw.text_of_kept holds, List.map_map]
        · rfl
        · intro line inside
          obtain ⟨entry, found, rfl⟩ := List.mem_map.mp inside
          exact ⟨kept_entryLine (fits entry found).keeps.kept, allBlank_entryLine entry⟩
      have same : (Table.ofList entries).entries = entries := Table.entries_ofList distinct
      have read : mapping? (layOut ((Table.ofList entries).entries.map bodyLine))
          = some (.ofList entries) :=
        mapping?_layOut (by rwa [same])
      rw [same] at read
      rw [body, decode, holds, if_pos rfl, read]

/-- A text that survives on its line is what is displayed of it. -/
theorem clean_flatten_line {name : String} (plain : holdsLiterals name = false)
    {text : List Char} (h : IsText text)
    : Markup.clean (flatten (Raw.text ⟨name, 0, [text]⟩)) = text := by
  -- A body of one empty line is empty.
  by_cases none : text = []
  · subst none
    have body : Raw.text ⟨name, 0, [[]]⟩ = [] := by
      simp [Raw.text, plain, plainLines, before, allBlank]
    rw [body]
    exact h.cleaned
  · have body : Raw.text ⟨name, 0, [text]⟩ = layOut [text] := by
      rw [Raw.text_of_plain plain]
      · exact congrArg (fun line => layOut [line]) h.trimmed.trimRight_eq
      · simpa using ⟨h.uncommented, h.trimmed.allBlank_eq none⟩
    rw [body, clean_flatten_layOut h none]

/-- The block of a display text is read, even if nothing is displayed. -/
theorem reads_textBlock {name text : String} (named : name ∈ ["statement", "answer", "solution"])
    (h : IsText text.toList)
    : (Block.mk name [text.toList] (.text text)).Reads := by
  have texts : holdsLiterals name = false
      ∧ (name == "statement" || name == "answer" || name == "solution") = true := by
    simp only [List.mem_cons, List.not_mem_nil, or_false] at named
    rcases named with rfl | rfl | rfl <;> exact ⟨rfl, rfl⟩
  have header : header? (headerLine name) = some name ∧ OneLine (headerLine name) := by
    simp only [List.mem_cons, List.not_mem_nil, or_false] at named
    rcases named with rfl | rfl | rfl <;> exact header?_headerLine (by decide)
  refine ⟨header.1, ?_, ?_, ?_⟩
  · simpa using h.noHeader
  · intro line inside
    rcases List.mem_cons.mp inside with rfl | inside
    · exact header.2
    · obtain rfl := List.mem_singleton.mp inside
      exact h.trimmed.oneLine h.plain
  · rw [decode, texts.1, texts.2, clean_flatten_line texts.1 h, String.ofList_toList]
    rfl

/-- The block of a display text is found if no line of the text is a header. -/
theorem found_displayBlocks {name text : String}
    (named : name ∈ ["statement", "answer", "solution"])
    (noHeader : ∀ line ∈ lines (text.toList ++ ['\n']), header? line = none)
    : ∀ block ∈ displayBlocks name text, block.Found := by
  have header : header? (headerLine name) = some name ∧ OneLine (headerLine name) := by
    simp only [List.mem_cons, List.not_mem_nil, or_false] at named
    rcases named with rfl | rfl | rfl <;> exact header?_headerLine (by decide)
  intro block member
  unfold displayBlocks at member
  split at member
  · exact absurd member List.not_mem_nil
  · obtain rfl := List.mem_singleton.mp member
    refine ⟨header.1, noHeader, ?_⟩
    simp only [List.mem_cons, List.not_mem_nil, or_false] at named
    rcases named with rfl | rfl | rfl <;> rfl

/-- A text that survives on its line is read again as it is, and the line is no header. -/
theorem reread_of_isText {text : String} (h : IsText text.toList)
    : reread text = text
      ∧ ∀ line ∈ lines (text.toList ++ ['\n']), header? line = none := by
  have line : lines (text.toList ++ ['\n']) = [text.toList] :=
    lines_append_newline (h.trimmed.oneLine h.plain) []
  rw [reread, line, clean_flatten_line rfl h, String.ofList_toList]
  exact ⟨rfl, List.forall_mem_singleton.mpr h.noHeader⟩

/-- The block of the choices is read, even if there are none. -/
theorem reads_choicesBlock {items : List (List Char × List (List Char))}
    (h : ∀ item ∈ items, IsItem item.1 item.2)
    : (Block.mk "choices" (items.flatMap (fun item => dashLine item.1 :: item.2))
        (.items (items.map (fun item => .ofList (itemText item))))).Reads := by
  have lines : ∀ line ∈ items.flatMap (fun item => dashLine item.1 :: item.2),
      OneLine line ∧ '#' ∉ line ∧ allBlank line = false ∧ header? line = none := by
    intro line member
    obtain ⟨item, found, inside⟩ := List.mem_flatMap.mp member
    have whole := h item found
    rcases List.mem_cons.mp inside with rfl | later
    · refine ⟨oneLine_dashLine whole.trimmed whole.plain, ?_, rfl, rfl⟩
      simpa [dashLine] using whole.uncommented
    · obtain ⟨shown, uncommented, _, noHeader⟩ := whole.continuation line later
      exact ⟨shown.oneLine, uncommented, shown.trimmed.allBlank_eq shown.shows, noHeader⟩
  -- A choice that starts with an empty line loses the blank behind its dash.
  have trims : (items.flatMap (fun item => dashLine item.1 :: item.2)).map trimRight
      = items.flatMap itemLines := by
    rw [List.map_flatMap]
    refine List.flatMap_congr (fun item found => ?_)
    have rest : item.2.map trimRight = item.2 :=
      map_eq_self (fun line inside =>
        ((h item found).continuation line inside).1.trimmed.trimRight_eq)
    rw [List.map_cons, rest, itemLines]
  have header
      : header? (headerLine "choices") = some "choices" ∧ OneLine (headerLine "choices") :=
    header?_headerLine (by decide)
  refine ⟨header.1, fun line inside => (lines line inside).2.2.2, ?_, ?_⟩
  · intro line inside
    rcases List.mem_cons.mp inside with rfl | inside
    · exact header.2
    · exact (lines line inside).1
  · rw [Raw.text_of_plain rfl
      (fun line inside => ⟨(lines line inside).2.1, (lines line inside).2.2.1⟩), trims]
    have read := items?_layOut h
    simp [decode, holdsLiterals, read]

theorem reads_choicesBlocks {items : List (List Char × List (List Char))}
    (h : ∀ item ∈ items, IsItem item.1 item.2)
    : ∀ block ∈ choicesBlocks items, block.Reads := by
  intro block member
  unfold choicesBlocks at member
  split at member
  · exact absurd member List.not_mem_nil
  · obtain rfl := List.mem_singleton.mp member
    exact reads_choicesBlock h

end QuizVariants.Definition
