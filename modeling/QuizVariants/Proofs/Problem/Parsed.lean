import QuizVariants.Proofs.Except
import QuizVariants.Proofs.Literal.Reading
import QuizVariants.Proofs.Problem.Assembly

/-! Definitions that were read.
Every literal of a definition was read from a text of its source, and metadata stands under names
that no field has. Main statement: this holds of whatever a source of the primary dialect is read
as.
-/

namespace QuizVariants

open QuizVariants.Section
open QuizVariants.Literal (IsRead)

namespace Section

/-- Content whose literals were read. -/
def Content.IsRead : Content → Prop
  | .mapping table => ∀ entry ∈ table.entries, entry.2.IsRead
  | .value literal => literal.IsRead
  | _ => True

/-- Sections whose literals were read. -/
def AllRead (sections : Sections) : Prop :=
  ∀ entry ∈ sections.entries, entry.2.IsRead

/-- The literal of an entry was read from what follows its key, by the recursion over the lines. -/
theorem isRead_of_entriesOf {ls : List (List Char)} {entries : List (String × Literal)}
    (h : entriesOf ls = some entries)
    : ∀ entry ∈ entries, entry.2.IsRead := by
  refine entriesOf_induction (motive := fun _ entries => ∀ entry ∈ entries, entry.2.IsRead)
    (List.forall_mem_nil _) ?_ h
  exact fun _ _ others => List.forall_mem_cons.mpr ⟨⟨_, rfl⟩, others⟩

theorem isRead_of_mapping? {body : List Char} {table : Table Literal}
    (h : mapping? body = some table)
    : ∀ entry ∈ table.entries, entry.2.IsRead := by
  obtain ⟨entries, read, rfl⟩ := Option.map_eq_some_iff.mp h
  exact fun entry member => isRead_of_entriesOf read entry (Table.mem_of_mem_ofList member)

/-- Whatever a body is read as, its literals were read. -/
theorem isRead_decode (name : String) (body : List Char) : (decode name body).1.IsRead := by
  unfold decode
  split
  · split
    · next entries read => exact isRead_of_mapping? read
    · exact nofun
  · split
    · trivial
    · split
      · split <;> trivial
      · exact ⟨body, rfl⟩

theorem allRead_erase {sections : Sections} (h : AllRead sections) (name : String)
    : AllRead (sections.erase name) :=
  fun entry member => h entry (List.mem_filter.mp member).1

/-- Spreading the entries with information makes sections of literals that were read. -/
theorem allRead_spreadInfo {sections : Sections} (h : AllRead sections)
    : AllRead (spreadInfo sections) := by
  unfold spreadInfo
  split
  · next entries found =>
    intro entry member
    rcases Table.mem_of_mem_insertAll member with other | information
    · exact allRead_erase h "info" entry other
    · obtain ⟨source, inside, rfl⟩ := List.mem_map.mp information
      exact h _ (mem_of_found found) source inside
  · exact allRead_erase h "info"

theorem allRead_renameId {sections : Sections} (h : AllRead sections)
    : AllRead (renameId sections) := by
  unfold renameId
  split
  · next id found =>
    intro entry member
    rcases mem_of_mem_insertEntry member with rfl | other
    · exact h ("id", id) (mem_of_found found)
    · exact allRead_erase h "id" entry other
  · exact h

/-- The short name of the identifier is left to no section. -/
theorem id_not_mem_renameId (sections : Sections) : "id" ∉ (renameId sections).names := by
  unfold renameId
  split
  · next id found =>
    rw [Table.names_insert]
    have erased : "id" ∉ (sections.erase "id").names := by
      simp [Table.names, Table.erase, eraseEntry]
    split
    · exact erased
    · simp [erased]
  · next missing => exact Table.get?_eq_none_iff.mp missing

/-- The sections of a source hold literals that were read, none of them under the short name of the
identifier. -/
theorem allRead_of_readPrimary {source : List Char} {sections : Sections}
    {warnings : List Warning} (h : readPrimary source = .ok (sections, warnings))
    : AllRead sections ∧ "id" ∉ sections.names := by
  obtain ⟨raws, _, same⟩ := bind_eq_ok_iff.mp h
  obtain ⟨rfl, _⟩ := Prod.mk.inj (Except.ok.inj same)
  refine ⟨allRead_renameId (allRead_spreadInfo (fun entry member => ?_)), id_not_mem_renameId _⟩
  obtain ⟨read, found, rfl⟩ := List.mem_map.mp (Table.mem_of_mem_ofList member)
  obtain ⟨raw, _, rfl⟩ := List.mem_map.mp found
  exact isRead_decode raw.name raw.text

end Section

namespace Definition

/-- Taking in a section fills a field that holds no literals, or the parameters, or it binds
metadata. -/
theorem take_cases (definition : Definition) (name : String) (content : Content)
    : ((definition.take name content).parameters = definition.parameters
        ∧ (definition.take name content).metadata = definition.metadata)
      ∨ (name = "parameters" ∧ ∃ table, content = .mapping table
        ∧ (definition.take name content).parameters = table
        ∧ (definition.take name content).metadata = definition.metadata)
      ∨ (name ∉ fieldNames ∧ ∃ literal, content = .value literal
        ∧ (definition.take name content).parameters = definition.parameters
        ∧ (definition.take name content).metadata = definition.metadata.insert name literal) := by
  unfold take
  split
  case h_13 => exact Or.inr (Or.inl ⟨rfl, _, rfl, rfl, rfl⟩)
  case h_14 =>
    refine Or.inr (Or.inr ⟨?_, _, rfl, rfl, rfl⟩)
    simp_all [fieldNames]
  all_goals exact Or.inl ⟨rfl, rfl⟩

/-- What holds of the parameters and the metadata of a definition into which sections of some names
were taken: their literals were read, metadata has no name of a field, and parameters are metadata
only where they have no section. -/
structure TakenFrom (names : List String) (parameters metadata : Table Literal) : Prop where
  parametersRead : ∀ entry ∈ parameters.entries, entry.2.IsRead
  metadataRead : ∀ entry ∈ metadata.entries, entry.2.IsRead
  named : ∀ name ∈ metadata.names, name ∉ "id" :: fieldNames
  either : "parameters" ∈ metadata.names → parameters = .empty
  neither : "parameters" ∉ names → parameters = .empty ∧ "parameters" ∉ metadata.names

theorem takenFrom_nil : TakenFrom [] .empty .empty :=
  ⟨nofun, nofun, nofun, nofun, fun _ => ⟨rfl, nofun⟩⟩

/-- Metadata of a new name keeps what holds; witness: only that name is added. -/
theorem TakenFrom.insert {names : List String} {parameters metadata : Table Literal}
    (h : TakenFrom names parameters metadata) {name : String} {literal : Literal}
    (read : literal.IsRead) (other : name ∉ "id" :: fieldNames) (fresh : name ∉ names)
    : TakenFrom (name :: names) parameters (metadata.insert name literal) := by
  have bound {key : String} (member : key ∈ (metadata.insert name literal).names)
      : key = name ∨ key ∈ metadata.names := by
    obtain ⟨entry, found, rfl⟩ := List.mem_map.mp member
    rcases mem_of_mem_insertEntry found with rfl | old
    · exact Or.inl rfl
    · exact Or.inr (List.mem_map_of_mem old)
  refine ⟨h.parametersRead, fun entry member => ?_, fun key member => ?_, fun member => ?_,
    fun unseen => ?_⟩
  · rcases mem_of_mem_insertEntry member with rfl | old
    · exact read
    · exact h.metadataRead entry old
  · rcases bound member with rfl | old
    · exact other
    · exact h.named key old
  · rcases bound member with rfl | old
    · exact (h.neither fresh).1
    · exact h.either old
  · obtain ⟨own, before⟩ := not_or.mp (fun seen => unseen (List.mem_cons.mpr seen))
    refine ⟨(h.neither before).1, fun member => ?_⟩
    rcases bound member with same | old
    · exact own same
    · exact (h.neither before).2 old

/-- Taking in a section of a new name keeps what holds, by cases on what the section fills. -/
theorem TakenFrom.take {names : List String} {definition : Definition}
    (h : TakenFrom names definition.parameters definition.metadata) {name : String}
    {content : Content} (read : content.IsRead) (long : name ≠ "id") (fresh : name ∉ names)
    : TakenFrom (name :: names) (definition.take name content).parameters
        (definition.take name content).metadata := by
  rcases definition.take_cases name content with ⟨parameters, metadata⟩
    | ⟨rfl, table, rfl, parameters, metadata⟩ | ⟨other, literal, rfl, parameters, metadata⟩
  all_goals rw [parameters, metadata]
  · exact ⟨h.parametersRead, h.metadataRead, h.named, h.either,
      fun unseen => h.neither (List.not_mem_of_not_mem_cons unseen)⟩
  · refine ⟨read, h.metadataRead, h.named, fun member => ?_, fun unseen => ?_⟩
    · exact absurd member (h.neither fresh).2
    · exact absurd List.mem_cons_self unseen
  · refine h.insert read ?_ fresh
    rw [List.mem_cons, not_or]
    exact ⟨long, other⟩

/-- Taking in sections of new names keeps what holds, by induction on the sections. -/
theorem TakenFrom.takeAll {names : List String} {definition : Definition}
    (h : TakenFrom names definition.parameters definition.metadata)
    {sections : List (String × Content)} (read : ∀ entry ∈ sections, entry.2.IsRead)
    (long : "id" ∉ sections.map Prod.fst) (distinct : (sections.map Prod.fst).Nodup)
    (fresh : ∀ name ∈ sections.map Prod.fst, name ∉ names)
    : ∃ seen, TakenFrom seen (definition.takeAll sections).parameters
        (definition.takeAll sections).metadata := by
  induction sections generalizing names definition with
  | nil => exact ⟨names, h⟩
  | cons entry sections ih =>
      obtain ⟨first, others⟩ := List.forall_mem_cons.mp read
      obtain ⟨own, later⟩ := List.nodup_cons.mp distinct
      obtain ⟨new, news⟩ := List.forall_mem_cons.mp fresh
      obtain ⟨short, shorter⟩ := not_or.mp (fun seen => long (List.mem_cons.mpr seen))
      refine ih (h.take first (fun same => short same.symm) new) others shorter later ?_
      intro name member
      rw [List.mem_cons, not_or]
      exact ⟨fun same => own (same ▸ member), news name member⟩

/-- The literals of a definition were read from its source, and its metadata is told apart from
its fields and its parameters. -/
theorem takenFrom_of_parse {source : String} {definition : Definition} {warnings : List Warning}
    (h : parse .primary source = .ok (definition, warnings))
    : ∃ seen, TakenFrom seen definition.parameters definition.metadata := by
  obtain ⟨⟨sections, _⟩, read, same⟩ := bind_eq_ok_iff.mp h
  obtain ⟨rfl, _⟩ := Prod.mk.inj (Except.ok.inj same)
  obtain ⟨literals, short⟩ := allRead_of_readPrimary read
  exact takenFrom_nil.takeAll literals short sections.distinct (fun _ _ => List.not_mem_nil)

end Definition

end QuizVariants
