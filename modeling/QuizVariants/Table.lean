/-! Tables that remember the order of insertion.
A table binds distinct names; binding a name again keeps its place, and two tables are alike when
they bind the same names to the same values in any order.
-/

namespace QuizVariants

/-- Replaces the value of `key`, or adds it at the end. -/
def insertEntry (key : String) (value : α) : List (String × α) → List (String × α)
  | [] => [(key, value)]
  | entry :: rest =>
    if entry.1 = key then (key, value) :: rest else entry :: insertEntry key value rest

/-- The value that a list of entries gives to `key`. -/
def findEntry? (key : String) : List (String × α) → Option α
  | [] => none
  | entry :: rest => if entry.1 = key then some entry.2 else findEntry? key rest

/-- The entries under other names. -/
def eraseEntry (key : String) (entries : List (String × α)) : List (String × α) :=
  entries.filter (fun entry => entry.1 != key)

/-- Inserting keeps the names and adds the new one at the end. -/
theorem names_insertEntry (key : String) (value : α) (entries : List (String × α))
    : (insertEntry key value entries).map Prod.fst
        = if key ∈ entries.map Prod.fst then entries.map Prod.fst
          else entries.map Prod.fst ++ [key] := by
  induction entries with
  | nil => simp [insertEntry]
  | cons entry rest ih =>
    by_cases h : entry.1 = key
    · simp [insertEntry, h]
    · have h' : ¬ key = entry.1 := fun e => h e.symm
      simp only [insertEntry, h, if_false, List.map_cons, ih, List.mem_cons, h', false_or]
      split <;> simp

theorem nodup_insertEntry (key : String) (value : α) {entries : List (String × α)}
    (h : (entries.map Prod.fst).Nodup)
    : ((insertEntry key value entries).map Prod.fst).Nodup := by
  rw [names_insertEntry]
  split
  · exact h
  · next fresh =>
    rw [List.nodup_append]
    refine ⟨h, by simp, ?_⟩
    intro name member other single
    simp only [List.mem_singleton] at single
    exact fun same => fresh (single ▸ same ▸ member)

/-- A table of values under distinct names, in the order in which the names were first bound. -/
structure Table (α : Type) where
  entries : List (String × α)
  distinct : (entries.map Prod.fst).Nodup
  deriving DecidableEq

namespace Table

def empty : Table α :=
  ⟨[], by simp⟩

instance : Inhabited (Table α) := ⟨empty⟩

instance : EmptyCollection (Table α) := ⟨empty⟩

/-- Binds a name; a name that is bound already keeps its place. -/
def insert (table : Table α) (key : String) (value : α) : Table α :=
  ⟨insertEntry key value table.entries, nodup_insertEntry key value table.distinct⟩

def get? (table : Table α) (key : String) : Option α :=
  findEntry? key table.entries

def contains (table : Table α) (key : String) : Bool :=
  (table.get? key).isSome

def erase (table : Table α) (key : String) : Table α :=
  ⟨eraseEntry key table.entries,
    List.Pairwise.sublist (List.filter_sublist.map Prod.fst) table.distinct⟩

def names (table : Table α) : List String :=
  table.entries.map Prod.fst

def values (table : Table α) : List α :=
  table.entries.map Prod.snd

def size (table : Table α) : Nat :=
  table.entries.length

def isEmpty (table : Table α) : Bool :=
  table.entries.isEmpty

/-- Binds every entry of a list from left to right. -/
def insertAll (table : Table α) (entries : List (String × α)) : Table α :=
  entries.foldl (fun table entry => table.insert entry.1 entry.2) table

/-- The table of a list of entries; of two entries for a name the later one counts. -/
def ofList (entries : List (String × α)) : Table α :=
  empty.insertAll entries

/-- Whether two tables bind the same names to values that `same` accepts, in any order. -/
def alike (same : α → α → Bool) (a b : Table α) : Bool :=
  a.size == b.size && a.entries.all (fun entry =>
    match b.get? entry.1 with
    | some value => same entry.2 value
    | none => false)

theorem findEntry?_insertEntry (key other : String) (value : α) (entries : List (String × α))
    : findEntry? other (insertEntry key value entries)
        = if key = other then some value else findEntry? other entries := by
  induction entries with
  | nil => simp [insertEntry, findEntry?]
  | cons entry rest ih =>
    by_cases h : entry.1 = key
    · by_cases ho : key = other <;> simp [insertEntry, findEntry?, h, ho]
    · by_cases ho : key = other
      · subst ho
        simp [insertEntry, findEntry?, h, ih]
      · simp [insertEntry, findEntry?, h, ih, ho]

theorem get?_insert (table : Table α) (key other : String) (value : α)
    : (table.insert key value).get? other
        = if key = other then some value else table.get? other :=
  findEntry?_insertEntry key other value table.entries

/-- An insertion adds its name at the end, or nowhere when it is bound already. -/
theorem names_insert (table : Table α) (key : String) (value : α)
    : (table.insert key value).names
        = if key ∈ table.names then table.names else table.names ++ [key] :=
  names_insertEntry key value table.entries

end Table

end QuizVariants
