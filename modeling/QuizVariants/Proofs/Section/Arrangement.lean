import Mathlib.Data.List.Induction
import QuizVariants.Proofs.Section.Blocks
import QuizVariants.Proofs.Section.Header

/-! Sources written section by section.
A source of lines in front and of sections, each a header line with the lines of its body, is split
into these sections; what a section is read as is decided by its label and its body alone. The
first header that repeats a name is reported with the number of its line.
-/

namespace QuizVariants.Section

open QuizVariants.Text

/-- A line that is no header. -/
structure PlainLine where
  text : List Char
  noHeader : ∀ label, ¬ Heads label text
  oneLine : '\n' ∉ text

/-- A section as an author writes it: a header line and the lines of the body. -/
structure Written where
  label : List Char
  header : List Char
  heads : Heads label header
  oneLine : '\n' ∉ header
  body : List PlainLine

namespace Written

def name (written : Written) : String :=
  nameOf written.label

def lines (written : Written) : List (List Char) :=
  written.header :: written.body.map PlainLine.text

/-- The section that is found at a line. -/
def rawAt (number : Nat) (written : Written) : Raw :=
  ⟨written.name, number, written.body.map (fun line => withoutReturn line.text)⟩

/-- What the body of a section is read as. -/
def read (written : Written) : Content × List Warning :=
  decode written.name (written.rawAt 0).text

def entry (written : Written) : String × Content :=
  (written.name, written.read.1)

end Written

/-- The lines of a source, the ones in front first. -/
def sourceLines (preamble : List PlainLine) (sections : List Written) : List (List Char) :=
  preamble.map PlainLine.text ++ sections.flatMap Written.lines

/-- A source, every line of it with its end. -/
def sourceOf (preamble : List PlainLine) (sections : List Written) : String :=
  .ofList (layOut (sourceLines preamble sections))

-----------------------------------------------------------------------------------------
-- Lines and their numbers
-----------------------------------------------------------------------------------------

/-- Lines with their numbers, the first number being given. -/
def numberedAt (first : Nat) (ls : List (List Char)) : List (Nat × List Char) :=
  ls.mapIdx (fun index line => (first + index, line))

theorem numberedAt_cons (first : Nat) (line : List Char) (rest : List (List Char))
    : numberedAt first (line :: rest) = (first, line) :: numberedAt (first + 1) rest := by
  simp [numberedAt, List.mapIdx_cons, Nat.add_assoc, Nat.add_comm 1]

theorem numberedAt_append (first : Nat) (front back : List (List Char))
    : numberedAt first (front ++ back)
        = numberedAt first front ++ numberedAt (first + front.length) back := by
  simp [numberedAt, List.mapIdx_append, Nat.add_assoc, Nat.add_comm front.length]

theorem numbered_eq (ls : List (List Char)) : numbered ls = numberedAt 1 ls := by
  simp [numbered, numberedAt, Nat.add_comm 1]

theorem map_snd_numberedAt (first : Nat) (ls : List (List Char))
    : (numberedAt first ls).map Prod.snd = ls := by
  refine List.ext_getElem (by simp [numberedAt]) (fun place _ _ => ?_)
  simp [numberedAt]

-----------------------------------------------------------------------------------------
-- The sections that are found
-----------------------------------------------------------------------------------------

/-- The sections that are found from a line on. -/
def rawsAt (number : Nat) : List Written → List Raw
  | [] => []
  | written :: rest => written.rawAt number :: rawsAt (number + written.lines.length) rest

theorem map_name_rawsAt (number : Nat) (sections : List Written)
    : (rawsAt number sections).map Raw.name = sections.map Written.name := by
  induction sections generalizing number with
  | nil => rfl
  | cons written rest ih => rw [rawsAt, List.map_cons, List.map_cons, ih]; rfl

theorem rawsAt_append (number : Nat) (first second : List Written)
    : rawsAt number (first ++ second)
        = rawsAt number first ++ rawsAt (number + (first.flatMap Written.lines).length) second := by
  induction first generalizing number with
  | nil => rfl
  | cons written rest ih =>
      simp only [List.cons_append, rawsAt, ih, List.flatMap_cons, List.length_append,
        Nat.add_assoc]

/-- Where a section was found does not decide what it is read as. -/
theorem map_read_rawsAt (number : Nat) (sections : List Written)
    : (rawsAt number sections).map (fun raw => (raw.name, decode raw.name raw.text))
        = sections.map (fun written => (written.name, written.read)) := by
  induction sections generalizing number with
  | nil => rfl
  | cons written rest ih => rw [rawsAt, List.map_cons, List.map_cons, ih]; rfl

/-- Lines that are no headers are found in front of what follows. -/
theorem rawFrom_plain (number : Nat) (body : List PlainLine) (rest : List (Nat × List Char))
    : rawFrom header? (numberedAt number (body.map (fun line => withoutReturn line.text)) ++ rest)
        = (body.map (fun line => withoutReturn line.text) ++ (rawFrom header? rest).1,
            (rawFrom header? rest).2) := by
  rw [rawFrom_append, map_snd_numberedAt]
  intro line member
  have inside := List.mem_map_of_mem (f := Prod.snd) member
  rw [map_snd_numberedAt] at inside
  obtain ⟨plain, _, same⟩ := List.mem_map.mp inside
  rw [← same, header?_eq_none_iff]
  exact fun label heads => plain.noHeader label (heads_withoutReturn_iff.mp heads)

/-- The sections are found one after the other, by induction on them. -/
theorem rawFrom_sections (number : Nat) (sections : List Written)
    : rawFrom header? (numberedAt number ((sections.flatMap Written.lines).map withoutReturn))
        = ([], rawsAt number sections) := by
  induction sections generalizing number with
  | nil => rfl
  | cons written rest ih =>
      have header : header? (withoutReturn written.header) = some written.name :=
        (heads_withoutReturn_iff.mpr written.heads).header?_eq
      have split : ((written :: rest).flatMap Written.lines).map withoutReturn
          = withoutReturn written.header
            :: (written.body.map (fun line => withoutReturn line.text)
              ++ (rest.flatMap Written.lines).map withoutReturn) := by
        simp [Written.lines, Function.comp_def]
      have below : number + 1 + written.body.length = number + written.lines.length := by
        rw [Written.lines, List.length_cons, List.length_map]
        omega
      rw [split, numberedAt_cons, rawFrom_cons header, numberedAt_append, rawFrom_plain,
        List.length_map, below, ih, List.append_nil]
      rfl

/-- A source is split into its sections. -/
theorem rawFrom_source (preamble : List PlainLine) (sections : List Written)
    : (rawFrom header? (numbered (lines (sourceOf preamble sections).toList))).2
        = rawsAt (preamble.length + 1) sections := by
  have plain : ∀ line ∈ sourceLines preamble sections, '\n' ∉ line := by
    refine List.forall_mem_append.mpr ⟨?_, ?_⟩
    · exact List.forall_mem_map.mpr (fun line _ => line.oneLine)
    · refine List.forall_mem_flatMap.mpr (fun written _ => List.forall_mem_cons.mpr ⟨?_, ?_⟩)
      · exact written.oneLine
      · exact List.forall_mem_map.mpr (fun line _ => line.oneLine)
  have split : (sourceLines preamble sections).map withoutReturn
      = preamble.map (fun line => withoutReturn line.text)
        ++ (sections.flatMap Written.lines).map withoutReturn := by
    rw [sourceLines, List.map_append, List.map_map]
    rfl
  rw [sourceOf, String.toList_ofList, lines_layOut_of_plain plain, split, numbered_eq,
    numberedAt_append, rawFrom_plain, rawFrom_sections, List.length_map, Nat.add_comm 1]

-----------------------------------------------------------------------------------------
-- Repeated names
-----------------------------------------------------------------------------------------

/-- The first repeated section is found behind sections of distinct names, by induction on them. -/
theorem repeated?_append_cons {seen : List String} {earlier later : List Raw} {raw : Raw}
    (distinct : (earlier.map Raw.name).Nodup) (fresh : ∀ name ∈ earlier.map Raw.name, name ∉ seen)
    (old : raw.name ∈ earlier.map Raw.name ∨ raw.name ∈ seen)
    : repeated? seen (earlier ++ raw :: later) = some raw := by
  induction earlier generalizing seen with
  | nil =>
      have again : seen.contains raw.name = true := by simpa using old
      rw [List.nil_append, repeated?, if_pos again]
  | cons first earlier ih =>
      obtain ⟨own, others⟩ := List.nodup_cons.mp distinct
      obtain ⟨new, news⟩ := List.forall_mem_cons.mp fresh
      have unseen : ¬ seen.contains first.name = true := by simpa using new
      rw [List.cons_append, repeated?, if_neg unseen]
      refine ih others (fun name member => ?_) ?_
      · rw [List.mem_cons, not_or]
        exact ⟨fun same => own (same ▸ member), news name member⟩
      · rcases old with earlier | before
        · rcases List.mem_cons.mp earlier with same | later
          · exact Or.inr (same ▸ List.mem_cons_self)
          · exact Or.inl later
        · exact Or.inr (List.mem_cons_of_mem _ before)

/-- The line of the first header that repeats a name comes behind all lines in front of it. -/
def lineBehind (preamble : List PlainLine) (earlier : List Written) : Nat :=
  (sourceLines preamble earlier).length + 1

/-- A header that repeats the name of an earlier one and behind which no other does so first. -/
structure FirstRepeat (sections earlier : List Written) (repeated : Written) : Prop where
  stands : earlier ++ [repeated] <+: sections
  distinct : (earlier.map Written.name).Nodup
  again : repeated.name ∈ earlier.map Written.name

/-- Names that are not distinct have a first repetition, by induction on the sections. -/
theorem exists_firstRepeat {sections : List Written}
    (h : ¬ (sections.map Written.name).Nodup)
    : ∃ earlier repeated, FirstRepeat sections earlier repeated := by
  induction sections using List.reverseRecOn with
  | nil => exact absurd List.nodup_nil h
  | append_singleton front last ih =>
      by_cases distinct : (front.map Written.name).Nodup
      · refine ⟨front, last, List.prefix_rfl, distinct, ?_⟩
        by_contra fresh
        refine h ?_
        rw [List.map_append, List.nodup_append]
        refine ⟨distinct, by simp, fun name member other single same => fresh ?_⟩
        obtain rfl := List.mem_singleton.mp single
        exact same ▸ member
      · obtain ⟨earlier, repeated, stands, names, again⟩ := ih distinct
        exact ⟨earlier, repeated, stands.trans (List.prefix_append front [last]), names, again⟩

/-- A repeated name is reported with the line of the first header that repeats one. -/
theorem readPrimary_of_firstRepeat {preamble : List PlainLine} {sections earlier : List Written}
    {repeated : Written} (h : FirstRepeat sections earlier repeated)
    : readPrimary (sourceOf preamble sections).toList
        = .error (.duplicateSection repeated.name (lineBehind preamble earlier)) := by
  obtain ⟨⟨later, rfl⟩, distinct, again⟩ := h
  have found := rawFrom_source preamble (earlier ++ [repeated] ++ later)
  have line : preamble.length + 1 + (earlier.flatMap Written.lines).length
      = lineBehind preamble earlier := by
    rw [lineBehind, sourceLines, List.length_append, List.length_map]
    omega
  rw [List.append_assoc, List.singleton_append, rawsAt_append, rawsAt, line] at found
  have reported := @repeated?_append_cons [] (rawsAt (preamble.length + 1) earlier)
    (rawsAt (lineBehind preamble earlier + repeated.lines.length) later)
    (repeated.rawAt (lineBehind preamble earlier)) (by rwa [map_name_rawsAt])
    (fun _ _ => List.not_mem_nil) (Or.inl (by rwa [map_name_rawsAt]))
  rw [List.append_assoc, List.singleton_append, readPrimary, split, found]
  simp only [reported]
  rfl

/-- Sections under distinct names are read one by one. -/
theorem readPrimary_sourceOf (preamble : List PlainLine) {sections : List Written}
    (distinct : (sections.map Written.name).Nodup)
    : readPrimary (sourceOf preamble sections).toList
        = .ok (finish (.ofList (sections.map Written.entry)),
            sections.flatMap (fun written => written.read.2)) := by
  have fresh : repeated? [] (rawsAt (preamble.length + 1) sections) = none := by
    refine repeated?_eq_none_iff.mpr ⟨?_, fun _ _ => List.not_mem_nil⟩
    rwa [map_name_rawsAt]
  rw [readPrimary, split, rawFrom_source]
  simp only [fresh]
  change Except.ok _ = _
  simp only [map_read_rawsAt, List.map_map, List.flatMap_map]
  rfl

end QuizVariants.Section
