import QuizVariants.Table

/-! Entries of tables.
A fresh name is bound at the end of a table, so that binding distinct fresh names one after the
other adds their entries in order.
-/

namespace QuizVariants

/-- A fresh name is bound at the end, by induction on the entries. -/
theorem insertEntry_of_fresh {name : String} {value : α} {entries : List (String × α)}
    (fresh : name ∉ entries.map Prod.fst)
    : insertEntry name value entries = entries ++ [(name, value)] := by
  induction entries with
  | nil => rfl
  | cons entry rest ih =>
      simp only [List.map_cons, List.mem_cons, not_or] at fresh
      rw [insertEntry, if_neg (fun same => fresh.1 same.symm), ih fresh.2]
      rfl

/-- A name without a value is one that no entry has, by induction on the entries. -/
theorem findEntry?_eq_none_iff {name : String} {entries : List (String × α)}
    : findEntry? name entries = none ↔ name ∉ entries.map Prod.fst := by
  induction entries with
  | nil => simp [ findEntry?]
  | cons entry rest ih =>
      by_cases same : entry.1 = name
      · simp [ findEntry?, same]
      · have other : ¬ name = entry.1 := fun h => same h.symm
        simp [ findEntry?, same, other, ih]

/-- Of two lists of entries the first one decides about its names, by induction on it. -/
theorem findEntry?_append {name : String} {first second : List (String × α)}
    : findEntry? name (first ++ second)
        = ( findEntry? name first).or ( findEntry? name second) := by
  induction first with
  | nil => simp [ findEntry?]
  | cons entry rest ih =>
      by_cases same : entry.1 = name
      · simp [ findEntry?, same]
      · simp [ findEntry?, same, ih]

theorem eraseEntry_of_fresh {name : String} {entries : List (String × α)}
    (fresh : name ∉ entries.map Prod.fst)
    : eraseEntry name entries = entries := by
  refine List.filter_eq_self.mpr (fun entry member => bne_iff_ne.mpr (fun same => fresh ?_))
  exact same ▸ List.mem_map_of_mem member

/-- Erasing a name takes out its only entry. -/
theorem eraseEntry_append_cons {name : String} {value : α} (front : List (String × α))
    {back : List (String × α)} (first : name ∉ front.map Prod.fst)
    (last : name ∉ back.map Prod.fst)
    : eraseEntry name (front ++ (name, value) :: back) = front ++ back := by
  have kept : ∀ entries : List (String × α), name ∉ entries.map Prod.fst →
      entries.filter (fun entry => entry.1 != name) = entries :=
    fun _ fresh => eraseEntry_of_fresh fresh
  rw [eraseEntry, List.filter_append, List.filter_cons, kept front first, kept back last]
  simp

theorem findEntry?_append_cons {name : String} {value : α} (front : List (String × α))
    {back : List (String × α)} (first : name ∉ front.map Prod.fst)
    : findEntry? name (front ++ (name, value) :: back) = some value := by
  rw [findEntry?_append, findEntry?_eq_none_iff.mpr first]
  simp [ findEntry?]

/-- Binding a name adds no other entry, by induction on the entries. -/
theorem mem_of_mem_insertEntry {name : String} {value : α} {entry : String × α}
    {entries : List (String × α)} (h : entry ∈ insertEntry name value entries)
    : entry = (name, value) ∨ entry ∈ entries := by
  induction entries with
  | nil => exact Or.inl (List.mem_singleton.mp h)
  | cons first rest ih =>
      unfold insertEntry at h
      split at h
      · rcases List.mem_cons.mp h with new | old
        · exact Or.inl new
        · exact Or.inr (List.mem_cons_of_mem first old)
      · rcases List.mem_cons.mp h with rfl | later
        · exact Or.inr List.mem_cons_self
        · exact (ih later).imp id (List.mem_cons_of_mem first)

theorem mem_of_found {name : String} {value : α} {entries : List (String × α)}
    (h : findEntry? name entries = some value)
    : (name, value) ∈ entries := by
  induction entries with
  | nil => exact nomatch h
  | cons entry rest ih =>
      unfold findEntry? at h
      split at h
      · next same =>
        obtain rfl := Option.some.inj h
        exact List.mem_cons.mpr (Or.inl (Prod.ext same.symm rfl))
      · exact List.mem_cons_of_mem entry (ih h)

namespace Table

@[ext]
theorem ext {first second : Table α} (same : first.entries = second.entries)
    : first = second := by
  cases first
  cases second
  exact mk.injEq _ _ _ _ ▸ same

theorem entries_insert_of_fresh {table : Table α} {name : String} {value : α}
    (fresh : name ∉ table.names)
    : (table.insert name value).entries = table.entries ++ [(name, value)] :=
  insertEntry_of_fresh fresh

theorem get?_eq_none_iff {table : Table α} {name : String}
    : table.get? name = none ↔ name ∉ table.names :=
  findEntry?_eq_none_iff

/-- Binding distinct fresh names adds their entries in order, by induction on them. -/
theorem entries_insertAll_of_fresh {table : Table α} {entries : List (String × α)}
    (distinct : (entries.map Prod.fst).Nodup)
    (fresh : ∀ name ∈ entries.map Prod.fst, name ∉ table.names)
    : (table.insertAll entries).entries = table.entries ++ entries := by
  induction entries generalizing table with
  | nil => simp [insertAll]
  | cons entry rest ih =>
      obtain ⟨own, others⟩ := List.nodup_cons.mp distinct
      obtain ⟨first, later⟩ := List.forall_mem_cons.mp fresh
      have added : (table.insert entry.1 entry.2).entries = table.entries ++ [entry] :=
        entries_insert_of_fresh first
      have stillFresh
          : ∀ name ∈ rest.map Prod.fst, name ∉ (table.insert entry.1 entry.2).names := by
        intro name member bound
        rw [names, added, List.map_append, List.mem_append] at bound
        rcases bound with before | same
        · exact later name member before
        · obtain rfl := List.mem_singleton.mp same
          exact own member
      have step : table.insertAll (entry :: rest) = (table.insert entry.1 entry.2).insertAll rest :=
        rfl
      rw [step, ih others stillFresh, added]
      simp

/-- Binding entries adds no others, by induction on them. -/
theorem mem_of_mem_insertAll {table : Table α} {entries : List (String × α)} {entry : String × α}
    (h : entry ∈ (table.insertAll entries).entries)
    : entry ∈ table.entries ∨ entry ∈ entries := by
  induction entries generalizing table with
  | nil => exact Or.inl h
  | cons first rest ih =>
      rcases @ih (table.insert first.1 first.2) h with bound | later
      · rcases mem_of_mem_insertEntry bound with rfl | old
        · exact Or.inr List.mem_cons_self
        · exact Or.inl old
      · exact Or.inr (List.mem_cons_of_mem first later)

theorem mem_of_mem_ofList {entries : List (String × α)} {entry : String × α}
    (h : entry ∈ (ofList entries).entries)
    : entry ∈ entries :=
  (mem_of_mem_insertAll h).resolve_left List.not_mem_nil

theorem entries_ofList {entries : List (String × α)} (distinct : (entries.map Prod.fst).Nodup)
    : (ofList entries).entries = entries :=
  entries_insertAll_of_fresh distinct (fun _ _ bound => nomatch bound)

theorem ofList_entries (table : Table α) : ofList table.entries = table :=
  Table.ext (entries_ofList table.distinct)

end Table

end QuizVariants
