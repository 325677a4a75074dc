import QuizVariants.Proofs.Section.Body

/-! Sources laid out section by section.
A source is split at its headers into the bodies between them; blocks that are read one by one make
a source that is read block by block.
-/

namespace QuizVariants.Section

open QuizVariants.Text

/-- Lines that are no headers belong to the body in front of what follows, by induction on them. -/
theorem rawFrom_append {name? : List Char → Option String} {body rest : List (Nat × List Char)}
    (h : ∀ line ∈ body, name? line.2 = none)
    : rawFrom name? (body ++ rest)
        = (body.map Prod.snd ++ (rawFrom name? rest).1, (rawFrom name? rest).2) := by
  induction body with
  | nil => rfl
  | cons line body ih =>
      obtain ⟨number, text⟩ := line
      obtain ⟨first, others⟩ := List.forall_mem_cons.mp h
      have plain : name? text = none := first
      rw [List.cons_append, rawFrom, ih others, plain]
      rfl

/-- A header starts a section with the lines up to the next header. -/
theorem rawFrom_cons {name? : List Char → Option String} {name : String} {number : Nat}
    {line : List Char} (h : name? line = some name) (rest : List (Nat × List Char))
    : rawFrom name? ((number, line) :: rest)
        = ([], ⟨name, number, (rawFrom name? rest).1⟩ :: (rawFrom name? rest).2) := by
  rw [rawFrom, h]

/-- No section repeats a name exactly if the names are distinct and new, by induction on them. -/
theorem repeated?_eq_none_iff {seen : List String} {raws : List Raw}
    : repeated? seen raws = none
      ↔ (raws.map Raw.name).Nodup ∧ ∀ name ∈ raws.map Raw.name, name ∉ seen := by
  induction raws generalizing seen with
  | nil => simp [repeated?]
  | cons raw raws ih =>
      by_cases old : raw.name ∈ seen
      · simp [repeated?, old]
      · have new : seen.contains raw.name = false := by simpa using old
        simp only [repeated?, new, Bool.false_eq_true, if_false, ih, List.map_cons,
          List.nodup_cons, List.forall_mem_cons]
        constructor
        · rintro ⟨distinct, fresh⟩
          refine ⟨⟨?_, distinct⟩, old, ?_⟩
          · exact fun own => fresh raw.name own List.mem_cons_self
          · exact fun name member => fun seen => fresh name member (List.mem_cons_of_mem _ seen)
        · rintro ⟨⟨own, distinct⟩, _, fresh⟩
          refine ⟨distinct, fun name member => ?_⟩
          rw [List.mem_cons, not_or]
          exact ⟨fun same => own (same ▸ member), fresh name member⟩

-----------------------------------------------------------------------------------------
-- Pieces
-----------------------------------------------------------------------------------------

/-- A section as it stands on lines: its name, its header and the lines of its body. -/
structure Piece where
  name : String
  header : List Char
  body : List (List Char)

def Piece.lines (piece : Piece) : List (List Char) :=
  piece.header :: piece.body

/-- A piece that is found by its header among other lines. -/
structure Piece.Found (name? : List Char → Option String) (piece : Piece) : Prop where
  header : name? piece.header = some piece.name
  noHeader : ∀ line ∈ piece.body, name? line = none

/-- The sections of laid out pieces are the pieces, whatever the numbers of their lines are; by
induction on the pieces. -/
theorem rawFrom_pieces {name? : List Char → Option String} {pieces : List Piece}
    (found : ∀ piece ∈ pieces, piece.Found name?) {ls : List (Nat × List Char)}
    (same : ls.map Prod.snd = pieces.flatMap Piece.lines)
    : (rawFrom name? ls).1 = []
      ∧ (rawFrom name? ls).2.map (fun raw => (raw.name, raw.body))
        = pieces.map (fun piece => (piece.name, piece.body)) := by
  induction pieces generalizing ls with
  | nil =>
      obtain rfl := List.map_eq_nil_iff.mp same
      exact ⟨rfl, rfl⟩
  | cons piece pieces ih =>
      obtain ⟨first, others⟩ := List.forall_mem_cons.mp found
      rw [List.flatMap_cons, Piece.lines, List.cons_append] at same
      -- The lines are numbered, so each part of them is known by its texts only.
      obtain ⟨⟨number, line⟩, more, rfl, header, below⟩ := List.map_eq_cons_iff.mp same
      obtain ⟨body, rest, rfl, bodies, later⟩ := List.map_eq_append_iff.mp below
      obtain rfl : line = piece.header := header
      obtain ⟨before, sections⟩ := ih others later
      have plain : ∀ line ∈ body, name? line.2 = none := by
        intro line member
        exact first.noHeader line.2 (bodies ▸ List.mem_map_of_mem member)
      rw [rawFrom_cons first.header, rawFrom_append plain]
      refine ⟨rfl, ?_⟩
      simp [before, sections, bodies]

/-- Pieces under distinct names are found as sections of their own. -/
theorem exists_split_of_pieces {name? : List Char → Option String} {pieces : List Piece}
    (found : ∀ piece ∈ pieces, piece.Found name?) {ls : List (Nat × List Char)}
    (same : ls.map Prod.snd = pieces.flatMap Piece.lines)
    (distinct : (pieces.map Piece.name).Nodup)
    : ∃ raws, split name? ls = .ok raws
      ∧ raws.map (fun raw => (raw.name, raw.body))
        = pieces.map (fun piece => (piece.name, piece.body)) := by
  obtain ⟨_, sections⟩ := rawFrom_pieces found same
  have names : (rawFrom name? ls).2.map Raw.name = pieces.map Piece.name := by
    have firsts := congrArg (List.map Prod.fst) sections
    rw [List.map_map, List.map_map] at firsts
    exact firsts
  have fresh : repeated? [] (rawFrom name? ls).2 = none :=
    repeated?_eq_none_iff.mpr ⟨names ▸ distinct, fun _ _ seen => nomatch seen⟩
  exact ⟨_, by simp only [split, fresh], sections⟩

-----------------------------------------------------------------------------------------
-- Blocks
-----------------------------------------------------------------------------------------

/-- A section as it is laid out: its name, the lines of its body, and what they are read as. -/
structure Block where
  name : String
  body : List (List Char)
  content : Content

theorem header?_eq_none {line : List Char} (trimmed : trimLeft line = line)
    (h : line.head? ≠ some '<')
    : header? line = none := by
  rw [header?, trimmed, after?_eq_none h]
  rfl

/-- The line of a header. -/
def headerLine (name : String) : List Char :=
  '<' :: '<' :: name.toList ++ ['>', '>']

/-- The lines of a section. -/
def Block.lines (block : Block) : List (List Char) :=
  headerLine block.name :: block.body

def Block.piece (block : Block) : Piece :=
  ⟨block.name, headerLine block.name, block.body⟩

/-- A block that is found by its header among other lines, and whose body is read without a
warning. -/
structure Block.Found (block : Block) : Prop where
  header : header? (headerLine block.name) = some block.name
  noHeader : ∀ line ∈ block.body, header? line = none
  decoded : decode block.name (Raw.text ⟨block.name, 0, block.body⟩) = (block.content, [])

/-- A block that is found by its header and whose body is read without a warning. -/
structure Block.Reads (block : Block) : Prop where
  header : header? (headerLine block.name) = some block.name
  noHeader : ∀ line ∈ block.body, header? line = none
  oneLine : ∀ line ∈ block.lines, OneLine line
  decoded : decode block.name (Raw.text ⟨block.name, 0, block.body⟩) = (block.content, [])

theorem Block.Reads.found {block : Block} (h : block.Reads) : block.Found :=
  ⟨h.header, h.noHeader, h.decoded⟩

theorem map_snd_numbered (ls : List (List Char)) : (numbered ls).map Prod.snd = ls := by
  refine List.ext_getElem ?_ (fun place _ _ => ?_)
  · simp [numbered]
  · simp [numbered]

/-- What a section is read as depends on its name and its lines alone. -/
theorem map_decode {raws : List Raw} {blocks : List Block} (reads : ∀ block ∈ blocks, block.Found)
    (same : raws.map (fun raw => (raw.name, raw.body))
      = blocks.map (fun block => (block.name, block.body)))
    : raws.map (fun raw => (raw.name, decode raw.name raw.text))
        = blocks.map (fun block => (block.name, block.content, [])) := by
  let read (section' : String × List (List Char)) : String × Content × List Warning :=
    (section'.1, decode section'.1 (Raw.text ⟨section'.1, 0, section'.2⟩))
  calc raws.map (fun raw => (raw.name, decode raw.name raw.text))
      = (raws.map (fun raw => (raw.name, raw.body))).map read := by
        rw [List.map_map]
        rfl
    _ = (blocks.map (fun block => (block.name, block.body))).map read := by rw [same]
    _ = blocks.map (fun block => (block.name, block.content, [])) := by
        rw [List.map_map]
        refine List.map_congr_left (fun block member => ?_)
        simp only [Function.comp, read, (reads block member).decoded]

/-- A source whose lines are those of blocks under distinct names is read block by block. -/
theorem readPrimary_of_lines {source : List Char} {blocks : List Block}
    (same : lines source = blocks.flatMap Block.lines) (reads : ∀ block ∈ blocks, block.Found)
    (distinct : (blocks.map Block.name).Nodup)
    : readPrimary source
        = .ok (finish (.ofList (blocks.map (fun block => (block.name, block.content)))), []) := by
  have found : ∀ piece ∈ blocks.map Block.piece, piece.Found header? :=
    List.forall_mem_map.mpr (fun block member => ⟨(reads block member).header,
      (reads block member).noHeader⟩)
  have laid : (numbered (lines source)).map Prod.snd
      = (blocks.map Block.piece).flatMap Piece.lines := by
    rw [map_snd_numbered, same, List.flatMap_map]
    rfl
  obtain ⟨raws, divided, sections⟩ :=
    exists_split_of_pieces found laid (by rw [List.map_map]; exact distinct)
  rw [List.map_map] at sections
  rw [readPrimary, divided]
  change Except.ok _ = _
  simp only [map_decode reads sections, List.map_map, List.flatMap_map]
  have silent : blocks.flatMap (fun _ => ([] : List Warning)) = [] := by simp
  rw [silent]
  rfl

/-- A source of laid out blocks under distinct names is read block by block. -/
theorem readPrimary_layOut {blocks : List Block} (reads : ∀ block ∈ blocks, block.Reads)
    (distinct : (blocks.map Block.name).Nodup)
    : readPrimary (layOut (blocks.flatMap Block.lines))
        = .ok (finish (.ofList (blocks.map (fun block => (block.name, block.content)))), []) := by
  refine readPrimary_of_lines ?_ (fun block member => (reads block member).found) distinct
  refine lines_layOut (fun line member => ?_)
  obtain ⟨block, found, inside⟩ := List.mem_flatMap.mp member
  exact (reads block found).oneLine line inside

end QuizVariants.Section
