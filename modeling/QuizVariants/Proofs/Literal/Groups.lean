import QuizVariants.Proofs.Literal.Outside
import QuizVariants.Proofs.Literal.Reading
import QuizVariants.Proofs.Text.Affixes
import QuizVariants.Proofs.Text.Joined

/-! Groups in brackets.
A list is written as one group: the bracket that opens it is closed by the one that ends it. The
reader takes off both brackets before it looks at what they enclose, so that it also takes texts for
lists in which the first bracket is closed before the end.
-/

namespace QuizVariants.Literal

open QuizVariants.Text

-----------------------------------------------------------------------------------------
-- Parts between commas
-----------------------------------------------------------------------------------------

/-- A text that is one part of a list: it closes its strings and brackets, and no comma of it stands
outside of all of them. -/
structure Whole (part : List Char) : Prop where
  closed : LeavesOpen part 0
  undivided : ∀ front back, part = front ++ ',' :: back → ¬ LeavesOpen front 0

/-- The parts of a text between the commas at its top level. -/
structure Divides (text : List Char) (parts : List (List Char)) : Prop where
  some : parts ≠ []
  joined : joinWith [','] parts = text
  whole : ∀ part ∈ parts, Whole part

/-- A text is crossed when no comma of it divides, by induction on the text. -/
theorem Place.cross?_eq_some_iff {place next : Place} {text : List Char}
    : place.cross? text = some next
      ↔ text.foldl Place.step place = next
        ∧ ∀ front back,
          text = front ++ ',' :: back → (front.foldl Place.step place).divides ',' = false := by
  induction text generalizing place with
  | nil => simp [cross?]
  | cons c text ih =>
      rw [cross?]
      split
      · next divides =>
        refine iff_of_false (Option.some_ne_none next).symm (fun crossed => ?_)
        have comma : c = ',' := (divides_iff.mp divides).1
        have inside := crossed.2 [] text (by rw [comma]; rfl)
        exact Bool.noConfusion ((comma ▸ divides).symm.trans inside)
      · next inside =>
        rw [ih, List.foldl_cons]
        refine and_congr_right (fun _ => ?_)
        constructor
        · intro later front back split
          cases front with
          | nil =>
              obtain ⟨rfl, -⟩ := List.cons.inj split
              exact Bool.eq_false_iff.mpr inside
          | cons d front =>
              obtain ⟨rfl, rest⟩ := List.cons.inj split
              exact later front back rest
        · intro all front back split
          exact all (c :: front) back (by rw [split]; rfl)

theorem Place.Reached.foldl_step {place : Place} (h : place.Reached) (text : List Char)
    : (text.foldl Place.step place).Reached := by
  induction text generalizing place with
  | nil => exact h
  | cons c text ih => exact ih (h.step c)

/-- A comma divides behind a text exactly if that closes all of its strings and brackets. -/
theorem divides_comma_iff {front : List Char}
    : (front.foldl Place.step .start).divides ',' = true ↔ LeavesOpen front 0 := by
  rw [leavesOpen_iff]
  have reached := Place.reached_start.foldl_step front
  constructor
  · intro divides
    obtain ⟨_, unmarked, flat⟩ := Place.divides_iff.mp divides
    exact reached.eq_start unmarked flat
  · intro start
    rw [start]
    rfl

theorem closed_iff_whole {part : List Char} : Closed part ↔ Whole part := by
  rw [Closed, Place.cross?_eq_some_iff]
  constructor
  · rintro ⟨back, inside⟩
    refine ⟨leavesOpen_iff.mpr back, fun front rest split leaves => ?_⟩
    exact Bool.noConfusion ((divides_comma_iff.mpr leaves).symm.trans (inside front rest split))
  · rintro ⟨closed, undivided⟩
    refine ⟨leavesOpen_iff.mp closed, fun front rest split => ?_⟩
    exact Bool.eq_false_iff.mpr (fun divides => undivided front rest split
      (divides_comma_iff.mp divides))

/-- The parts of a list are the list with commas in between, by induction on its rest. -/
theorem joinWith_of_partsFrom {place : Place} {part text : List Char} {parts : List (List Char)}
    (h : partsFrom place part text = some parts)
    : parts ≠ [] ∧ joinWith [','] parts = part.reverse ++ text := by
  induction text generalizing place part parts with
  | nil =>
      simp only [partsFrom] at h
      split at h
      · obtain rfl := Option.some.inj h
        exact ⟨List.cons_ne_nil _ _, by simp [joinWith]⟩
      · cases h
  | cons c text ih =>
      simp only [partsFrom] at h
      split at h
      · next divides =>
        obtain ⟨rest, found, rfl⟩ := Option.map_eq_some_iff.mp h
        obtain ⟨some, joined⟩ := ih found
        obtain ⟨next, others, rfl⟩ := List.exists_cons_of_ne_nil some
        have comma : c = ',' := (Place.divides_iff.mp divides).1
        refine ⟨List.cons_ne_nil _ _, ?_⟩
        rw [joinWith.eq_3 _ _ _ (by simp), joined, comma]
        simp
      · obtain ⟨some, joined⟩ := ih h
        exact ⟨some, by rw [joined]; simp⟩

/-- A list is read in the parts that divide it. -/
theorem parts?_eq_some_iff {text : List Char} {parts : List (List Char)}
    : parts? text = some parts ↔ Divides text parts := by
  constructor
  · intro found
    obtain ⟨some, joined⟩ := joinWith_of_partsFrom found
    exact ⟨some, joined, fun part member =>
      closed_iff_whole.mp (closed_of_partsFrom rfl found part member)⟩
  · rintro ⟨some, rfl, whole⟩
    exact parts?_joinWith some (fun part member => closed_iff_whole.mpr (whole part member))

-----------------------------------------------------------------------------------------
-- One group
-----------------------------------------------------------------------------------------

/-- A text that is one group: the bracket that opens it is closed by its last character and not
before. -/
structure Group (span : List Char) : Prop where
  ends : LeavesOpen span 0
  stays : ∀ front back number,
    span = front ++ back → front ≠ [] → back ≠ [] → LeavesOpen front number → 0 < number

/-- A text in which some bracket is closed that it has not opened. -/
def ClosesMore (text : List Char) : Prop :=
  ∃ front back number, text = front ++ back ∧ LeavesOpen front number ∧ number < 0

theorem LeavesOpen.append {front back : List Char} {first second : Int} (h : LeavesOpen front first)
    (next : LeavesOpen back second)
    : LeavesOpen (front ++ back) (first + second) := by
  obtain ⟨shown, outside, rfl⟩ := next
  rw [leavesOpen_iff] at h ⊢
  rw [List.foldl_append, h, outside.foldl_step]

theorem leavesOpen_nil : LeavesOpen [] 0 :=
  ⟨[], .nil, rfl⟩

theorem leavesOpen_singleton {c : Char} (unquoted : isQuote c = false)
    : LeavesOpen [c] (level [c]) :=
  ⟨[c], .plain unquoted .nil, rfl⟩

/-- A text leaves one number of brackets open. -/
theorem LeavesOpen.unique {text : List Char} {first second : Int} (h : LeavesOpen text first)
    (again : LeavesOpen text second)
    : first = second :=
  congrArg Place.depth ((leavesOpen_iff.mp h).symm.trans (leavesOpen_iff.mp again))

/-- A bracket in front of a text is open behind it as well. -/
theorem leavesOpen_bracket {text : List Char} {number : Int}
    : LeavesOpen ('[' :: text) (1 + number) ↔ LeavesOpen text number := by
  constructor
  · rintro ⟨shown, outside, counted⟩
    cases outside with
    | string quote inside more => exact nomatch quote
    | plain unquoted more =>
        refine ⟨_, more, ?_⟩
        simp only [level_cons, opensBracket, closesBracket] at counted
        simpa using counted
  · exact fun leaves => (leavesOpen_singleton (c := '[') rfl).append leaves

/-- The parts of a list close what they open, by induction on them. -/
theorem leavesOpen_joinWith {parts : List (List Char)} (h : ∀ part ∈ parts, LeavesOpen part 0)
    : LeavesOpen (joinWith [','] parts) 0 := by
  induction parts with
  | nil => exact leavesOpen_nil
  | cons part rest ih =>
      obtain ⟨first, others⟩ := List.forall_mem_cons.mp h
      cases rest with
      | nil => exact first
      | cons next rest =>
          rw [joinWith_cons_cons]
          exact first.append ((leavesOpen_singleton (c := ',') rfl).append (ih others))

theorem Divides.leavesOpen {text : List Char} {parts : List (List Char)} (h : Divides text parts)
    : LeavesOpen text 0 :=
  h.joined ▸ leavesOpen_joinWith (fun part member => (h.whole part member).closed)

/-- A text that closes what it opens is one group in brackets, unless it closes one of them. -/
theorem group_iff {inner : List Char} (closed : LeavesOpen inner 0)
    : Group ('[' :: (inner ++ [']'])) ↔ ¬ ClosesMore inner := by
  constructor
  · rintro group ⟨front, back, number, rfl, leaves, negative⟩
    have positive := group.stays ('[' :: front) (back ++ [']']) (1 + number) (by simp) (by simp)
      (by simp) (leavesOpen_bracket.mpr leaves)
    omega
  · intro balanced
    refine ⟨?_, fun front back number split some others leaves => ?_⟩
    · exact leavesOpen_bracket.mpr (closed.append (leavesOpen_singleton (c := ']') rfl))
    · -- A front is the bracket and a front of what it encloses.
      obtain ⟨c, front, rfl⟩ := List.exists_cons_of_ne_nil some
      obtain ⟨rfl, behind⟩ := List.cons.inj split
      obtain ⟨back, last, rfl⟩ := back.eq_nil_or_concat'.resolve_left others
      obtain ⟨rfl, -⟩ := List.append_inj' (behind.trans (List.append_assoc ..).symm) rfl
      have inside : LeavesOpen front (number - 1) := by
        rw [← leavesOpen_bracket, show 1 + (number - 1) = number by omega]
        exact leaves
      by_contra few
      exact balanced ⟨front, back, number - 1, rfl, inside, by omega⟩

-----------------------------------------------------------------------------------------
-- Items
-----------------------------------------------------------------------------------------

/-- The literal of a part of a list, in which a list is not read again. -/
def ofPart (part : List Char) : Literal :=
  match decodeChars part with
  | .list _ => .verbatim (.ofList (trim part))
  | literal => literal

/-- An item is what its part alone is read as, unless that is a list. -/
theorem item_trim (part : List Char) : item (trim part) = ofPart part := by
  rw [item, ofPart, decodeChars, ofTrimmed]
  cases read : scalar? (trim part) with
  | some literal =>
      rcases cases_of_scalar? read with scalar | ⟨value, rfl⟩
      · cases literal with
        | list _ => exact scalar.elim
        | _ => rfl
      · rfl
  | none =>
      cases list : readList? (trim part) with
      | some literal =>
          obtain ⟨items, rfl, -⟩ := exists_parts_of_readList? list
          rfl
      | none => rfl

/-- The parts of a list that show something. -/
def shownParts (parts : List (List Char)) : List (List Char) :=
  parts.filter (fun part => !(trim part).isEmpty)

/-- Items are read from all parts but a blank last one, by induction on the parts. -/
theorem items?_eq_some_iff {parts : List (List Char)} {items : List Literal}
    : items? parts = some items
      ↔ (∀ part ∈ parts.dropLast, trim part ≠ []) ∧ items = (shownParts parts).map ofPart := by
  induction parts generalizing items with
  | nil => simp [items?, shownParts]
  | cons part rest ih =>
      cases rest with
      | nil =>
          have shown : shownParts [part] = if (trim part).isEmpty then [] else [part] := by
            cases blank : (trim part).isEmpty <;> simp [shownParts, blank]
          rw [shown, items?]
          split
          · simp
          · simp only [item_trim, Option.some_inj, List.dropLast_singleton, List.not_mem_nil,
              false_implies, implies_true, true_and, List.map_cons, List.map_nil]
            exact eq_comm
      | cons next rest =>
          simp only [items?]
          split
          · next blank => simpa using fun shows => absurd (List.isEmpty_iff.mp blank) shows
          · next shows =>
            have some : trim part ≠ [] := fun none => shows (List.isEmpty_iff.mpr none)
            have others : shownParts (part :: next :: rest) = part :: shownParts (next :: rest) :=
              List.filter_cons_of_pos (by simpa using some)
            rw [Option.map_eq_some_iff, others, List.dropLast_cons_of_ne_nil (by simp),
              List.forall_mem_cons, List.map_cons, item_trim]
            constructor
            · rintro ⟨read, found, rfl⟩
              obtain ⟨shown, rfl⟩ := ih.mp found
              exact ⟨⟨some, shown⟩, rfl⟩
            · rintro ⟨⟨-, shown⟩, rfl⟩
              exact ⟨_, ih.mpr ⟨shown, rfl⟩, rfl⟩

-----------------------------------------------------------------------------------------
-- Lists
-----------------------------------------------------------------------------------------

/-- A text in brackets that encloses parts of which only the last one may be blank. -/
structure Enumerates (span inner : List Char) (parts : List (List Char)) : Prop where
  enclosed : span = '[' :: (inner ++ [']'])
  divided : Divides inner parts
  shown : ∀ part ∈ parts.dropLast, trim part ≠ []

theorem readList?_eq_some_iff {span : List Char} {literal : Literal}
    : readList? span = some literal
      ↔ ∃ inner parts, Enumerates span inner parts
          ∧ literal = .list ((shownParts parts).map ofPart) := by
  simp only [readList?, Option.bind_eq_bind, Option.bind_eq_some_iff, after?_eq_some_iff,
    before?_eq_some_iff, parts?_eq_some_iff, items?_eq_some_iff]
  constructor
  · rintro ⟨_, rfl, inner, rfl, parts, divided, _, ⟨shown, rfl⟩, written⟩
    exact ⟨inner, parts, ⟨rfl, divided, shown⟩, (Option.some.inj written).symm⟩
  · rintro ⟨inner, parts, ⟨rfl, divided, shown⟩, rfl⟩
    exact ⟨_, rfl, inner, rfl, parts, divided, _, ⟨shown, rfl⟩, rfl⟩

/-- A text is read as a list exactly if it is one, since no scalar starts with a bracket. -/
theorem decode_eq_list_iff {text : String} {items : List Literal}
    : decode text = .list items
      ↔ ∃ inner parts, Enumerates (trim text.toList) inner parts
          ∧ items = (shownParts parts).map ofPart := by
  have read : readList? (trim text.toList) = some (.list items)
      ↔ ∃ inner parts, Enumerates (trim text.toList) inner parts
          ∧ items = (shownParts parts).map ofPart := by
    simp only [readList?_eq_some_iff, Literal.list.injEq]
  rw [← read, decode, decodeChars, ofTrimmed]
  cases scalar : scalar? (trim text.toList) with
  | some literal =>
      have other : literal ≠ .list items := by
        rintro rfl
        rcases cases_of_scalar? scalar with plain | ⟨value, same⟩
        · exact plain
        · cases same
      have outside : readList? (trim text.toList) ≠ some (.list items) := by
        intro list
        obtain ⟨inner, parts, ⟨enclosed, -, -⟩, -⟩ := readList?_eq_some_iff.mp list
        rw [enclosed, scalar?_bracket] at scalar
        cases scalar
      exact iff_of_false other outside
  | none =>
      cases list : readList? (trim text.toList) with
      | some literal => simp
      | none => simp

/-- A text in brackets that is no list is kept. -/
theorem decode_of_brackets {text : String} {inner : List Char}
    (enclosed : trim text.toList = '[' :: (inner ++ [']']))
    (h : ∀ items, decode text ≠ .list items)
    : decode text = .verbatim (.ofList (trim text.toList)) := by
  have unread : readList? (trim text.toList) = none := by
    cases list : readList? (trim text.toList) with
    | none => rfl
    | some literal =>
        obtain ⟨inner, parts, enumerates, -⟩ := readList?_eq_some_iff.mp list
        exact absurd (decode_eq_list_iff.mpr ⟨inner, parts, enumerates, rfl⟩) (h _)
  rw [decode, decodeChars, ofTrimmed, unread, enclosed, scalar?_bracket]
  rfl

/-- A text is read by its brackets as an author means them: a list is one group and holds what its
parts are read as, and any other text in brackets is kept. -/
structure ReadsByGroups (text : String) : Prop where
  list : ∀ items, decode text = .list items → Group (trim text.toList)
    ∧ ∃ inner parts, Enumerates (trim text.toList) inner parts
      ∧ items = (shownParts parts).map ofPart
  other : ∀ inner, trim text.toList = '[' :: (inner ++ [']'])
    → ¬ (Group (trim text.toList) ∧ ∃ parts, Enumerates (trim text.toList) inner parts)
    → decode text = .verbatim (.ofList (trim text.toList))

/-- A text is read by its brackets unless it looks like a list in which a bracket is closed that
the list has not opened. -/
theorem readsByGroups_iff (text : String)
    : ReadsByGroups text
      ↔ ¬ ∃ inner parts, Enumerates (trim text.toList) inner parts ∧ ClosesMore inner := by
  constructor
  · rintro reads ⟨inner, parts, enumerates, closes⟩
    have group := (reads.list _ (decode_eq_list_iff.mpr ⟨inner, parts, enumerates, rfl⟩)).1
    rw [enumerates.enclosed, group_iff enumerates.divided.leavesOpen] at group
    exact group closes
  · intro balanced
    have group {inner : List Char} {parts : List (List Char)}
        (enumerates : Enumerates (trim text.toList) inner parts)
        : Group (trim text.toList) := by
      rw [enumerates.enclosed, group_iff enumerates.divided.leavesOpen]
      exact fun closes => balanced ⟨inner, parts, enumerates, closes⟩
    refine ⟨fun items list => ?_, fun inner enclosed single => ?_⟩
    · obtain ⟨inner, parts, enumerates, same⟩ := decode_eq_list_iff.mp list
      exact ⟨group enumerates, inner, parts, enumerates, same⟩
    · refine decode_of_brackets enclosed (fun items list => ?_)
      obtain ⟨other, parts, enumerates, -⟩ := decode_eq_list_iff.mp list
      obtain ⟨rfl, -⟩ := List.append_inj'
        (List.cons.inj (enumerates.enclosed.symm.trans enclosed)).2 rfl
      exact single ⟨group enumerates, parts, enumerates⟩

/-- The reader takes a text for a list exactly if it is in brackets and encloses parts of which only
the last one may be blank; the list holds what the parts are read as, in order. That is one group,
and every other text in brackets is kept, except where what the text encloses closes a bracket that
it has not opened. -/
theorem decode_brackets (text : String)
    : (∀ items, decode text = .list items
        ↔ ∃ inner parts, Enumerates (trim text.toList) inner parts
            ∧ items = (shownParts parts).map ofPart)
      ∧ (ReadsByGroups text
        ↔ ¬ ∃ inner parts, Enumerates (trim text.toList) inner parts ∧ ClosesMore inner) :=
  ⟨fun _ => decode_eq_list_iff, readsByGroups_iff text⟩

/-- The sum of two lists is no group, but it is read as a list of one text. -/
theorem decode_sumOfLists
    : decode "[1] + [2]" = .list [.verbatim "1] + [2"]
      ∧ ¬ Group (trim "[1] + [2]".toList)
      ∧ ¬ ReadsByGroups "[1] + [2]" := by
  have enumerates : Enumerates (trim "[1] + [2]".toList) "1] + [2".toList ["1] + [2".toList] :=
    ⟨rfl, parts?_eq_some_iff.mp rfl, List.forall_mem_nil _⟩
  have closes : ClosesMore "1] + [2".toList :=
    ⟨"1]".toList, " + [2".toList, -1, rfl, leavesOpen_iff.mpr rfl, by decide⟩
  refine ⟨?_, ?_, fun reads => ?_⟩
  · rw [decode_eq_list_iff]
    exact ⟨_, _, enumerates, rfl⟩
  · rw [enumerates.enclosed, group_iff enumerates.divided.leavesOpen]
    exact not_not.mpr closes
  · exact (readsByGroups_iff _).mp reads ⟨_, _, enumerates, closes⟩

end QuizVariants.Literal
