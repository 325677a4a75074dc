import QuizVariants.Proofs.Problem.Layout

/-! Definitions put together again.
The entries of the section with information become sections after all others, and the sections of
a source fill the fields of a definition one by one.
-/

namespace QuizVariants

open QuizVariants.Section
open QuizVariants.Definition

namespace Section

/-- A literal as a section of its own. -/
def valueSection (entry : String × Literal) : String × Content :=
  (entry.1, .value entry.2)

theorem map_fst_valueSection (entries : List (String × Literal))
    : (entries.map valueSection).map Prod.fst = entries.map Prod.fst := by
  rw [List.map_map]
  rfl

/-- The entries of the section with information come after all other sections. -/
theorem entries_spreadInfo {sections : Sections} {entries : List (String × Literal)}
    {others : List (String × Content)} (distinct : (entries.map Prod.fst).Nodup)
    (same : sections.entries = (mappingBlocks "info" entries).map entryOf ++ others)
    (noInfo : "info" ∉ others.map Prod.fst)
    (fresh : ∀ name ∈ entries.map Prod.fst, name ∉ others.map Prod.fst)
    : (spreadInfo sections).entries = others ++ entries.map valueSection := by
  have erased : (sections.erase "info").entries = others := by
    cases entries with
    -- Without entries there is no section to erase.
    | nil => exact (congrArg (eraseEntry "info") same).trans (eraseEntry_of_fresh noInfo)
    | cons entry rest =>
        refine (congrArg (eraseEntry "info") same).trans ?_
        exact eraseEntry_append_cons [] List.not_mem_nil noInfo
  cases entries with
  | nil =>
      have missing : sections.get? "info" = none := by
        rw [Table.get?, same]
        exact findEntry?_eq_none_iff.mpr noInfo
      rw [spreadInfo, missing, List.map_nil, List.append_nil]
      exact erased
  | cons entry rest =>
      have found : sections.get? "info" = some (.mapping (.ofList (entry :: rest))) := by
        rw [Table.get?, same]
        exact findEntry?_append_cons [] List.not_mem_nil
      have listed : (Table.ofList (entry :: rest)).entries = entry :: rest :=
        Table.entries_ofList distinct
      have distinct : (((entry :: rest).map valueSection).map Prod.fst).Nodup := by
        rwa [map_fst_valueSection]
      have added : ∀ name ∈ ((entry :: rest).map valueSection).map Prod.fst,
          name ∉ (sections.erase "info").names := by
        rw [map_fst_valueSection, Table.names, erased]
        exact fresh
      have all := Table.entries_insertAll_of_fresh distinct added
      rw [erased] at all
      rw [spreadInfo, found]
      simp only [listed]
      exact all

/-- The identifier comes last, under its long name. -/
theorem entries_renameId {sections : Sections} {id : String}
    {front back : List (String × Content)}
    (same : sections.entries = front ++ (textEntry "id" id).map valueSection ++ back)
    (first : "id" ∉ front.map Prod.fst) (last : "id" ∉ back.map Prod.fst)
    (fresh : "problem_id" ∉ (front ++ back).map Prod.fst)
    : (renameId sections).entries
        = front ++ back ++ (textEntry "problem_id" id).map valueSection := by
  -- An empty identifier has no section; any other one has a single section, which moves.
  by_cases none : id = ""
  · have plain : sections.entries = front ++ back := by
      simpa [textEntry, none] using same
    have missing : sections.get? "id" = .none := by
      rw [Table.get?, plain]
      refine findEntry?_eq_none_iff.mpr ?_
      rw [List.map_append, List.mem_append, not_or]
      exact ⟨first, last⟩
    rw [renameId, missing, plain]
    simp [textEntry, none]
  · have split : sections.entries = front ++ ("id", .value (.quoted id)) :: back := by
      simpa [textEntry, none, valueSection] using same
    have found : sections.get? "id" = some (.value (.quoted id)) := by
      rw [Table.get?, split]
      exact findEntry?_append_cons front first
    have erased : (sections.erase "id").entries = front ++ back :=
      (congrArg (eraseEntry "id") split).trans (eraseEntry_append_cons front first last)
    have unbound : "problem_id" ∉ (sections.erase "id").names := by
      rwa [Table.names, erased]
    rw [renameId, found, Table.entries_insert_of_fresh unbound, erased]
    simp [textEntry, none, valueSection]

end Section

namespace Definition

-----------------------------------------------------------------------------------------
-- The entries with information
-----------------------------------------------------------------------------------------

theorem names_textEntry (key text : String)
    : ((textEntry key text).map Prod.fst).Sublist [key] := by
  unfold textEntry
  split <;> simp

theorem names_listEntry (key : String) (texts : List String)
    : ((listEntry key texts).map Prod.fst).Sublist [key] := by
  unfold listEntry
  split <;> simp

/-- The entries with information but the identifier. -/
def laterEntries (definition : Definition) : List (String × Literal) :=
  textEntry "title" definition.title ++ textEntry "solution_title" definition.solutionTitle
    ++ listEntry "tags" definition.tags ++ definition.metadata.entries

theorem infoEntries_eq (definition : Definition)
    : definition.infoEntries = textEntry "id" definition.problemId ++ definition.laterEntries := by
  simp [infoEntries, laterEntries]

theorem names_laterEntries (definition : Definition)
    : (definition.laterEntries.map Prod.fst).Sublist
        (["title", "solution_title", "tags"] ++ definition.metadata.names) := by
  simp only [laterEntries, List.map_append]
  exact (((names_textEntry _ _).append (names_textEntry _ _)).append
    (names_listEntry _ _)).append (List.Sublist.refl _)

theorem names_infoEntries (definition : Definition)
    : (definition.infoEntries.map Prod.fst).Sublist
        ("id" :: "title" :: "solution_title" :: "tags" :: definition.metadata.names) := by
  rw [infoEntries_eq, List.map_append]
  exact (names_textEntry _ _).append (names_laterEntries definition)

/-- Strings and lists of strings fit their lines, so that only metadata may not. -/
theorem fitsLine_infoEntries {definition : Definition}
    (h : ∀ entry ∈ definition.metadata.entries, FitsLine entry.2)
    : ∀ entry ∈ definition.infoEntries, FitsLine entry.2 := by
  have text (key text : String) : ∀ entry ∈ textEntry key text, entry.2.IsPlain := by
    unfold textEntry
    split <;> simp [Literal.IsPlain, Literal.IsScalar]
  have list (key : String) (texts : List String)
      : ∀ entry ∈ listEntry key texts, entry.2.IsPlain := by
    unfold listEntry
    split <;> simp [Literal.IsPlain, Literal.IsScalar]
  simp only [infoEntries, List.forall_mem_append]
  refine ⟨⟨⟨⟨fun entry member => ?_, fun entry member => ?_⟩, fun entry member => ?_⟩,
    fun entry member => ?_⟩, h⟩
  · exact fitsLine_of_isPlain (text _ _ entry member)
  · exact fitsLine_of_isPlain (text _ _ entry member)
  · exact fitsLine_of_isPlain (text _ _ entry member)
  · exact fitsLine_of_isPlain (list _ _ entry member)

/-- The names under which a literal is no metadata. -/
def fieldNames : List String :=
  ["problem_id", "title", "solution_title", "tags", "statement", "answer", "solution", "choices"]

/-- A definition no metadata of which has the name of a field. -/
def NamedApart (definition : Definition) : Prop :=
  ∀ name ∈ definition.metadata.names, name ∉ "id" :: fieldNames

/-- The entries with information have distinct names, since metadata has none of the others. -/
theorem NamedApart.distinct {definition : Definition} (h : definition.NamedApart)
    : (definition.infoEntries.map Prod.fst).Nodup := by
  have apart (name : String) (field : name ∈ "id" :: fieldNames)
      : name ∉ definition.metadata.names :=
    fun member => h name member field
  have distinct : definition.metadata.names.Nodup := definition.metadata.distinct
  have all : ("id" :: "title" :: "solution_title" :: "tags" :: definition.metadata.names).Nodup := by
    simp [List.nodup_cons, distinct, apart "id" (by decide), apart "title" (by decide),
      apart "solution_title" (by decide), apart "tags" (by decide)]
  exact all.sublist (names_infoEntries definition)

/-- An entry with information has another name than the sections with a body. -/
theorem NamedApart.not_mem_bodies {definition : Definition} (h : definition.NamedApart)
    {bodies : List (String × Content)} (names : (bodies.map Prod.fst).Sublist bodyNames)
    (apart : "parameters" ∈ definition.metadata.names → "parameters" ∉ bodies.map Prod.fst)
    : ∀ name ∈ definition.infoEntries.map Prod.fst, name ∉ bodies.map Prod.fst := by
  intro name member clash
  have bodied := names.subset clash
  have kinds : ∀ name ∈ bodyNames,
      name ∉ ["id", "title", "solution_title", "tags"]
      ∧ (name = "parameters" ∨ name ∈ "id" :: fieldNames) := by
    decide
  have listed : name ∈ ["id", "title", "solution_title", "tags"] ++ definition.metadata.names :=
    (names_infoEntries definition).subset member
  rcases List.mem_append.mp listed with field | metadata
  · exact (kinds name bodied).1 field
  · rcases (kinds name bodied).2 with rfl | reserved
    · exact apart metadata clash
    · exact h name metadata reserved

/-- The sections of a source: those with a body, then the entries with information, and the
identifier at last. -/
theorem NamedApart.entries_finish {definition : Definition} (h : definition.NamedApart)
    {bodies : List (String × Content)} (names : (bodies.map Prod.fst).Sublist bodyNames)
    (apart : "parameters" ∈ definition.metadata.names → "parameters" ∉ bodies.map Prod.fst)
    : (finish (.ofList ((mappingBlocks "info" definition.infoEntries).map entryOf ++ bodies))).entries
        = bodies ++ definition.laterEntries.map valueSection
          ++ (textEntry "problem_id" definition.problemId).map valueSection := by
  have absent {name : String} (other : name ∉ bodyNames) : name ∉ bodies.map Prod.fst :=
    fun member => other (names.subset member)
  have written
      : (Table.ofList ((mappingBlocks "info" definition.infoEntries).map entryOf ++ bodies)).entries
        = (mappingBlocks "info" definition.infoEntries).map entryOf ++ bodies := by
    refine Table.entries_ofList ?_
    have all : (((mappingBlocks "info" definition.infoEntries).map entryOf ++ bodies).map
        Prod.fst).Sublist sectionNames := by
      rw [List.map_append, List.map_map]
      exact (names_mappingBlocks _ _).append names
    have distinct : sectionNames.Nodup := by decide
    exact distinct.sublist all
  have spread := entries_spreadInfo h.distinct written (absent (by decide))
    (h.not_mem_bodies names apart)
  have split : definition.infoEntries.map valueSection
      = (textEntry "id" definition.problemId).map valueSection
        ++ definition.laterEntries.map valueSection := by
    rw [infoEntries_eq, List.map_append]
  rw [split, ← List.append_assoc] at spread
  have later {name : String} (field : name ∈ "id" :: fieldNames)
      (other : name ∉ ["title", "solution_title", "tags"])
      : name ∉ (definition.laterEntries.map valueSection).map Prod.fst := by
    rw [map_fst_valueSection]
    intro member
    rcases List.mem_append.mp ((names_laterEntries definition).subset member) with own | metadata
    · exact other own
    · exact h name metadata field
  refine entries_renameId spread (absent (by decide)) (later (by decide) (by decide)) ?_
  rw [List.map_append, List.mem_append, not_or]
  exact ⟨absent (by decide), later (by decide) (by decide)⟩

-----------------------------------------------------------------------------------------
-- Sections taken in one after the other
-----------------------------------------------------------------------------------------

/-- Takes in sections one after the other. -/
def takeAll (definition : Definition) (sections : List (String × Content)) : Definition :=
  sections.foldl (fun definition entry => definition.take entry.1 entry.2) definition

theorem takeAll_append (definition : Definition) (first second : List (String × Content))
    : definition.takeAll (first ++ second) = (definition.takeAll first).takeAll second :=
  List.foldl_append

-----------------------------------------------------------------------------------------
-- A part fills one field, which keeps its default where the part is left out
-----------------------------------------------------------------------------------------

/-- A part that is left out changes nothing, and one that is not is taken in. -/
theorem takeAll_part {α : Type} {before after : Definition} {empty : Bool} {part : α}
    {entry : α → String × Content} (absent : empty = true → before = after)
    (present : before.take (entry part).1 (entry part).2 = after)
    : before.takeAll ((if empty then [] else [part]).map entry) = after := by
  cases empty with
  | true => exact absent rfl
  | false => exact present

/-- A section of entries fills its field, which is empty without it. -/
theorem takeAll_mappingBlocks {before after : Definition} {name : String} {table : Table Literal}
    (absent : table = .empty → before = after)
    (present : before.take name (.mapping table) = after)
    : before.takeAll ((mappingBlocks name table.entries).map entryOf) = after := by
  refine takeAll_part (fun none => absent (Table.ext (List.isEmpty_iff.mp none))) ?_
  rw [Table.ofList_entries]
  exact present

theorem takeAll_displayBlocks {before after : Definition} {name text : String}
    (absent : text = "" → before = after)
    (present : before.take name (.text (reread text)) = after)
    : before.takeAll ((displayBlocks name text).map entryOf) = after :=
  takeAll_part (fun none => absent (eq_of_beq none)) present

theorem takeAll_choicesBlocks {before after : Definition}
    {items : List (List Char × List (List Char))} (absent : items = [] → before = after)
    (present : before.take "choices" (.items (items.map (fun item => .ofList (itemText item))))
      = after)
    : before.takeAll ((choicesBlocks items).map entryOf) = after :=
  takeAll_part (fun none => absent (List.isEmpty_iff.mp none)) present

theorem takeAll_textEntry {before after : Definition} {name text : String}
    (absent : text = "" → before = after)
    (present : before.take name (.value (.quoted text)) = after)
    : before.takeAll ((textEntry name text).map valueSection) = after :=
  takeAll_part (fun none => absent (eq_of_beq none)) present

theorem takeAll_listEntry {before after : Definition} {name : String} {texts : List String}
    (absent : texts = [] → before = after)
    (present : before.take name (.value (.list (texts.map .quoted))) = after)
    : before.takeAll ((listEntry name texts).map valueSection) = after :=
  takeAll_part (fun none => absent (List.isEmpty_iff.mp none)) present

theorem take_tags (definition : Definition) (texts : List String)
    : definition.take "tags" (.value (.list (texts.map .quoted)))
        = { definition with tags := texts } := by
  have tags : tagsOf (.list (texts.map .quoted)) = texts := by
    rw [tagsOf, List.map_map]
    exact List.map_id texts
  exact congrArg (fun tags => { definition with tags }) tags

-----------------------------------------------------------------------------------------
-- Every literal that fills no field of its own is metadata
-----------------------------------------------------------------------------------------

/-- A literal under any other name is metadata. -/
theorem take_metadata {name : String} (other : name ∉ fieldNames) (definition : Definition)
    (literal : Literal)
    : definition.take name (.value literal)
        = { definition with metadata := definition.metadata.insert name literal } := by
  simp only [fieldNames, List.mem_cons, List.not_mem_nil, or_false, not_or] at other
  unfold take
  split <;> simp_all

/-- Metadata is bound entry by entry, by induction on the entries. -/
theorem takeAll_metadata {entries : List (String × Literal)}
    (others : ∀ name ∈ entries.map Prod.fst, name ∉ fieldNames) (definition : Definition)
    : definition.takeAll (entries.map valueSection)
        = { definition with metadata := definition.metadata.insertAll entries } := by
  induction entries generalizing definition with
  | nil => rfl
  | cons entry rest ih =>
      obtain ⟨first, later⟩ := List.forall_mem_cons.mp others
      have step : definition.takeAll ((entry :: rest).map valueSection)
          = (definition.take entry.1 (.value entry.2)).takeAll (rest.map valueSection) :=
        rfl
      rw [step, take_metadata first, ih later]
      rfl

-----------------------------------------------------------------------------------------
-- The entries with information fill the fields that no section with a body fills
-----------------------------------------------------------------------------------------

/-- The entries with information fill the identifier, the titles, the tags and the metadata. -/
theorem takeAll_information {definition : Definition}
    (others : ∀ name ∈ definition.metadata.names, name ∉ fieldNames)
    (parameters : Table Literal) (statement answer solution : String) (choices : List String)
    : takeAll { parameters, statement, answer, solution, choices }
        (definition.laterEntries.map valueSection
          ++ (textEntry "problem_id" definition.problemId).map valueSection)
      = { definition with parameters, statement, answer, solution, choices } := by
  obtain ⟨problemId, title, tags, _, _, _, solutionTitle, _, _, metadata⟩ := definition
  -- Each step fills one field; a field whose entry is left out keeps its default.
  have one : takeAll { parameters, statement, answer, solution, choices }
        ((textEntry "title" title).map valueSection)
      = { parameters, statement, answer, solution, choices, title } :=
    takeAll_textEntry (by rintro rfl; rfl) rfl
  have two : takeAll { parameters, statement, answer, solution, choices, title }
        ((textEntry "solution_title" solutionTitle).map valueSection)
      = { parameters, statement, answer, solution, choices, title, solutionTitle } :=
    takeAll_textEntry (by rintro rfl; rfl) rfl
  have three : takeAll { parameters, statement, answer, solution, choices, title, solutionTitle }
        ((listEntry "tags" tags).map valueSection)
      = { parameters, statement, answer, solution, choices, title, solutionTitle, tags } :=
    takeAll_listEntry (by rintro rfl; rfl) (take_tags _ tags)
  have four : takeAll
        { parameters, statement, answer, solution, choices, title, solutionTitle, tags }
        (metadata.entries.map valueSection)
      = { parameters, statement, answer, solution, choices, title, solutionTitle, tags,
          metadata } := by
    rw [takeAll_metadata others]
    exact congrArg _ (Table.ofList_entries metadata)
  have five : takeAll
        { parameters, statement, answer, solution, choices, title, solutionTitle, tags, metadata }
        ((textEntry "problem_id" problemId).map valueSection)
      = { parameters, statement, answer, solution, choices, title, solutionTitle, tags, metadata,
          problemId } :=
    takeAll_textEntry (by rintro rfl; rfl) rfl
  simp only [laterEntries, List.map_append, takeAll_append]
  rw [one, two, three, four, five]

end Definition

end QuizVariants
