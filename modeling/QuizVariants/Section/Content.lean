import QuizVariants.Literal.Text
import QuizVariants.Table

/-! Contents of sections.
Sources of both dialects are read into a table of section contents.
-/

namespace QuizVariants

/-- What a section holds. -/
inductive Section.Content where
  /-- Display text on one line. -/
  | text (shown : String)
  /-- Named literals in the order of their declaration. -/
  | mapping (table : Table Literal)
  /-- A list of display texts. -/
  | items (shown : List String)
  /-- A literal. -/
  | value (literal : Literal)
  deriving Inhabited

/-- The contents of sections by name, in the order of their first appearance. -/
abbrev Sections := Table Section.Content

namespace Section

def Content.toJson : Content → Json
  | .text shown => .string shown
  | .mapping table => .ofEntries Literal.toJson table.entries
  | .items shown => .strings shown
  | .value literal => literal.toJson

def sectionsJson (sections : Sections) : Json :=
  .ofEntries Content.toJson sections.entries

/-- Every entry of the section with information becomes a section of its own. -/
def spreadInfo (sections : Sections) : Sections :=
  match sections.get? "info" with
  | some (.mapping entries) =>
    (sections.erase "info").insertAll
      (entries.entries.map (fun entry => (entry.1, Content.value entry.2)))
  | _ => sections.erase "info"

/-- The identifier of a problem is found under its long name. -/
def renameId (sections : Sections) : Sections :=
  match sections.get? "id" with
  | some id => (sections.erase "id").insert "problem_id" id
  | none => sections

/-- The last step of reading a source in any dialect. -/
def finish (sections : Sections) : Sections :=
  renameId (spreadInfo sections)

end Section

end QuizVariants
