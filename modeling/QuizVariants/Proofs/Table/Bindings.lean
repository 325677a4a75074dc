import QuizVariants.Proofs.Table.Entries

/-! Tables that bind alike.
Two tables bind alike when every name has the same value in both, whatever the order of their
entries is. The order in which distinct names are bound is not seen by a search, and changes to
tables that bind alike give tables that bind alike.
-/

namespace QuizVariants

/-- An entry among entries under distinct names has its name to itself. -/
theorem fresh_of_distinct {name : String} {value : α} {front back : List (String × α)}
    (distinct : ((front ++ (name, value) :: back).map Prod.fst).Nodup)
    : name ∉ front.map Prod.fst ∧ name ∉ back.map Prod.fst := by
  rw [List.map_append, List.map_cons, List.nodup_append, List.nodup_cons] at distinct
  obtain ⟨_, ⟨behind, _⟩, apart⟩ := distinct
  exact ⟨fun earlier => apart name earlier name List.mem_cons_self rfl, behind⟩

/-- Of entries under distinct names a search finds exactly the entries that there are. -/
theorem findEntry?_eq_some_iff {name : String} {value : α} {entries : List (String × α)}
    (distinct : (entries.map Prod.fst).Nodup)
    : findEntry? name entries = some value ↔ (name, value) ∈ entries := by
  refine ⟨mem_of_found, fun member => ?_⟩
  obtain ⟨front, back, rfl⟩ := List.append_of_mem member
  exact findEntry?_append_cons front (fresh_of_distinct distinct).1

/-- A search of entries under distinct names does not see their order. -/
theorem findEntry?_eq_of_perm {first second : List (String × α)} (same : first.Perm second)
    (distinct : (first.map Prod.fst).Nodup) (name : String)
    : findEntry? name first = findEntry? name second := by
  have distinct' : (second.map Prod.fst).Nodup := (same.map Prod.fst).nodup_iff.mp distinct
  refine Option.ext (fun value => ?_)
  rw [findEntry?_eq_some_iff distinct, findEntry?_eq_some_iff distinct', same.mem_iff]

/-- A search among the entries under some names finds what a search of all entries finds. -/
theorem findEntry?_filter {name : String} {kept : List String} (member : name ∈ kept)
    (entries : List (String × α))
    : findEntry? name (entries.filter (fun entry => entry.1 ∈ kept)) = findEntry? name entries := by
  induction entries with
  | nil => rfl
  | cons entry rest ih =>
      rw [List.filter_cons]
      by_cases own : entry.1 = name
      · rw [if_pos (decide_eq_true (own ▸ member)), findEntry?, findEntry?, if_pos own, if_pos own]
      · have later (behind : List (String × α))
            : findEntry? name (entry :: behind) = findEntry? name behind :=
          if_neg own
        split
        · rw [later, later, ih]
        · rw [later, ih]

theorem findEntry?_eraseEntry (name other : String) (entries : List (String × α))
    : findEntry? other (eraseEntry name entries)
        = if name = other then none else findEntry? other entries := by
  induction entries with
  | nil => simp [eraseEntry, findEntry?]
  | cons entry rest ih =>
      by_cases erased : entry.1 = name
      · have dropped : eraseEntry name (entry :: rest) = eraseEntry name rest := by
          simp [eraseEntry, erased]
        rw [dropped, ih, findEntry?]
        by_cases sought : name = other
        · rw [if_pos sought, if_pos sought]
        · rw [if_neg sought, if_neg sought, if_neg (fun found => sought (erased.symm.trans found))]
      · have kept : eraseEntry name (entry :: rest) = entry :: eraseEntry name rest := by
          simp [eraseEntry, erased]
        rw [kept, findEntry?, findEntry?, ih]
        by_cases found : entry.1 = other
        · have unlike : ¬ name = other := fun sought => erased (found.trans sought.symm)
          rw [if_pos found, if_pos found, if_neg unlike]
        · rw [if_neg found, if_neg found]

namespace Table

/-- Two tables in which every name has the same value. -/
def BindAlike (first second : Table α) : Prop :=
  ∀ name, first.get? name = second.get? name

theorem get?_erase (table : Table α) (name other : String)
    : (table.erase name).get? other = if name = other then none else table.get? other :=
  findEntry?_eraseEntry name other table.entries

theorem bindAlike_ofList {first second : List (String × α)} (same : first.Perm second)
    (distinct : (first.map Prod.fst).Nodup)
    : BindAlike (ofList first) (ofList second) := by
  intro name
  have distinct' : (second.map Prod.fst).Nodup := (same.map Prod.fst).nodup_iff.mp distinct
  rw [get?, get?, entries_ofList distinct, entries_ofList distinct']
  exact findEntry?_eq_of_perm same distinct name

theorem nodup_entries (table : Table α) : table.entries.Nodup :=
  List.Pairwise.of_map Prod.fst (fun _ _ unlike same => unlike (congrArg Prod.fst same))
    table.distinct

theorem get?_eq_some_iff {table : Table α} {name : String} {value : α}
    : table.get? name = some value ↔ (name, value) ∈ table.entries :=
  findEntry?_eq_some_iff table.distinct

/-- Tables that bind alike have the same entries, in some order each. -/
theorem BindAlike.entries_perm {first second : Table α} (h : BindAlike first second)
    : first.entries.Perm second.entries := by
  refine (List.perm_ext_iff_of_nodup first.nodup_entries second.nodup_entries).mpr
    (fun entry => ?_)
  obtain ⟨name, value⟩ := entry
  rw [← get?_eq_some_iff, ← get?_eq_some_iff, h name]

theorem BindAlike.insert {first second : Table α} (h : BindAlike first second) (name : String)
    (value : α)
    : BindAlike (first.insert name value) (second.insert name value) := by
  intro other
  rw [get?_insert, get?_insert, h other]

theorem BindAlike.erase {first second : Table α} (h : BindAlike first second) (name : String)
    : BindAlike (first.erase name) (second.erase name) := by
  intro other
  rw [get?_erase, get?_erase, h other]

/-- Binding the same entries keeps tables alike, by induction on the entries. -/
theorem BindAlike.insertAll {first second : Table α} (h : BindAlike first second)
    (entries : List (String × α))
    : BindAlike (first.insertAll entries) (second.insertAll entries) := by
  induction entries generalizing first second with
  | nil => exact h
  | cons entry rest ih => exact ih (h.insert entry.1 entry.2)

end Table

end QuizVariants
