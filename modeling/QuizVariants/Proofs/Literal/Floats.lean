import QuizVariants.Proofs.Decimal.Notation
import QuizVariants.Proofs.Literal.Reading

/-! Floats of literals.
A finite float is read back from its digits. An infinite one is written as a word that no number
is written with, so that it is read back as text. Main statement: a literal that was read is read
again from its source form exactly if all of its floats are finite.
-/

namespace QuizVariants.Literal

open QuizVariants.Text
open QuizVariants.Decimal

-----------------------------------------------------------------------------------------
-- Finite floats
-----------------------------------------------------------------------------------------

/-- A sign is split off a numeral, which has none of its own. -/
theorem sign_signText {text rest : List Char} {numeral : Numeral}
    (read : Numeral.read? text = some (numeral, rest)) (negative : Bool)
    : sign (signText negative ++ text) = (negative, text) := by
  cases negative with
  | true => rfl
  | false =>
      rw [signText, if_neg Bool.false_ne_true, List.nil_append]
      unfold sign
      split
      · exact nomatch read
      · exact nomatch read
      · rfl

/-- A finite float is written with digits that are read back as the float. -/
theorem spelled_of_isFinite {value : Float} (finite : value.isFinite = true)
    : Spelled (source (.float value)).toList
      ∧ scalar? (source (.float value)).toList = some (.float value) := by
  obtain ⟨negative, d, numeral, text, read, unnatural, same⟩ :=
    @Layout.exists_numeral floatLayout (fun _ => rfl) value finite
  rw [source, text, String.toList_ofList]
  constructor
  · refine Or.inl ⟨?_, List.forall_mem_append.mpr ⟨?_, Layout.bare_digits rfl d⟩⟩
    · refine List.append_ne_nil_of_right_ne_nil _ (fun none => ?_)
      rw [none] at read
      cases read
    · cases negative <;> exact List.all_eq_true.mp rfl
  · have number
        : readNumber? (signText negative ++ floatLayout.digits d) = some (.float value) := by
      simp [readNumber?, sign_signText read, read, unnatural, same, finite]
    rw [scalar?, number]
    rfl

-----------------------------------------------------------------------------------------
-- Floats that are not finite
-----------------------------------------------------------------------------------------

/-- A float that is not finite is written as a word. -/
theorem source_of_not_isFinite {value : Float} (infinite : ¬ value.isFinite = true)
    : source (.float value) ∈ ["NaN", "inf", "-inf"] := by
  have denoted := Denotation.ofFloat_eq value
  change ¬ value.toModel.unpack.isFinite = true at infinite
  rw [source, Layout.write, denoted]
  cases unpacked : value.toModel.unpack with
  | notANumber => decide
  | infinity sign => cases sign <;> decide
  | zero sign => exact absurd (unpacked ▸ rfl) infinite
  | finite sign m e pos => exact absurd (unpacked ▸ rfl) infinite

/-- No such word is read as a float. -/
theorem word_not_float {word : String} (h : word ∈ ["NaN", "inf", "-inf"]) (value : Float)
    : Spelled word.toList ∧ item word.toList ≠ .float value
      ∧ decodeChars word.toList ≠ .float value := by
  simp only [List.mem_cons, List.not_mem_nil, or_false] at h
  rcases h with rfl | rfl | rfl <;> exact ⟨spelled_of_all rfl rfl, nofun, nofun⟩

/-- Every float is written with bare characters. -/
theorem spelled_float (value : Float) : Spelled (source (.float value)).toList := by
  by_cases finite : value.isFinite = true
  · exact (spelled_of_isFinite finite).1
  · exact (word_not_float (source_of_not_isFinite finite) value).1

-----------------------------------------------------------------------------------------
-- Literals with finite floats
-----------------------------------------------------------------------------------------

/-- A literal that is no float, or a finite one. -/
def IsFinite : Literal → Prop
  | .float value => value.isFinite = true
  | _ => True

/-- A literal all floats of which are finite. -/
def FloatsFinite : Literal → Prop
  | .list items => ∀ item ∈ items, item.IsFinite
  | literal => literal.IsFinite

theorem IsFinite.recovers {literal : Literal} (h : literal.IsFinite) : literal.Recovers := by
  cases literal with
  | float value => exact spelled_of_isFinite h
  | integer _ | bool _ | nan | quoted _ | list _ | verbatim _ => trivial

theorem FloatsFinite.floatsRecover {literal : Literal} (h : literal.FloatsFinite)
    : literal.FloatsRecover := by
  cases literal with
  | list items => exact fun item member => (h item member).recovers
  | float value => exact spelled_of_isFinite h
  | integer _ | bool _ | nan | quoted _ | verbatim _ => trivial

/-- An item that a list gives back in its own source form is finite. -/
theorem isFinite_of_inList_eq {literal : Literal} (same : literal.inList = literal)
    : literal.IsFinite := by
  cases literal with
  | float value =>
      by_cases finite : value.isFinite = true
      · exact finite
      · exact absurd same (word_not_float (source_of_not_isFinite finite) value).2.1
  | integer _ | bool _ | nan | quoted _ | list _ | verbatim _ => trivial

/-- An item that was read from a closed part can stand in a list, even as an infinite float. -/
theorem fitsList_item {part : List Char} (closed : Closed part) (shows : trim part ≠ [])
    : (item (trim part)).FitsList := by
  cases read : scalar? (trim part) with
  | some literal =>
      have same : item (trim part) = literal := by
        rw [item, read]
        rfl
      have spelled : Spelled literal.source.toList := by
        rcases cases_of_scalar? read with scalar | ⟨value, rfl⟩
        · exact spelled_source scalar
        · exact spelled_float value
      rw [same]
      exact ⟨spelled.shown.trimmed, spelled.shown.shows, spelled.closed⟩
  | none => exact (isPart_of_scalar?_eq_none closed shows read).toFitsList

/-- The items of a list that was read can stand in a list again. -/
theorem IsRead.fitsList {items : List Literal} (h : IsRead (.list items))
    : ∀ item ∈ items, item.FitsList := by
  obtain ⟨text, read⟩ := h
  have unread : scalar? (trim text) = none := by
    cases scalar : scalar? (trim text) with
    | none => rfl
    | some literal =>
        rw [decodeChars, ofTrimmed, scalar] at read
        obtain rfl : .list items = literal := read
        rcases cases_of_scalar? scalar with none | ⟨_, ⟨⟩⟩
        exact none.elim
  cases list : readList? (trim text) with
  | none =>
      rw [decodeChars, ofTrimmed, unread, list] at read
      cases read
  | some literal =>
      obtain ⟨others, rfl, parts⟩ := exists_parts_of_readList? list
      rw [decodeChars, ofTrimmed, unread, list] at read
      obtain rfl : items = others := Literal.list.inj read
      intro literal member
      obtain ⟨part, closed, shows, rfl⟩ := parts literal member
      exact fitsList_item closed shows

/-- A literal that was read and is read again from its source form has finite floats alone. -/
theorem IsRead.floatsFinite {literal : Literal} (h : literal.IsRead)
    (again : decodeChars literal.source.toList = literal)
    : literal.FloatsFinite := by
  cases literal with
  | float value =>
      by_cases finite : value.isFinite = true
      · exact finite
      · exact absurd again (word_not_float (source_of_not_isFinite finite) value).2.2
  | list items =>
      rw [decodeChars, show trim _ = _ from trimmed_source_list items,
        ofTrimmed_source_list h.fitsList] at again
      have same : items.map inList = items.map id := by
        rw [List.map_id]
        exact Literal.list.inj again
      exact fun item member => isFinite_of_inList_eq (List.map_inj_left.mp same item member)
  | integer _ | bool _ | nan | quoted _ | verbatim _ => trivial

/-- Reading a text, writing what was read and reading that again comes back to the same literal
exactly if all floats of it are finite, whatever the text is.
-/
theorem decode_source_iff (text : String)
    : decode (decode text).source = decode text ↔ (decode text).FloatsFinite := by
  have read : (decode text).IsRead := ⟨text.toList, rfl⟩
  constructor
  · exact read.floatsFinite
  · exact fun finite => (read.read_source finite.floatsRecover).2

-----------------------------------------------------------------------------------------
-- Numbers beyond all floats
-----------------------------------------------------------------------------------------

/-- A number has the size of its first digit, which is no zero. -/
theorem pow_le_naturalOf_cons {first : Char} {rest : List Char} (digit : isDigit first = true)
    (some : first ≠ '0')
    : 10 ^ rest.length ≤ naturalOf (first :: rest) := by
  have size : 1 ≤ naturalOf [first] := by
    simp only [isDigit, Bool.and_eq_true, decide_eq_true_eq, Char.le_def,
      UInt32.le_iff_toNat_le] at digit
    have other : first.toNat ≠ '0'.toNat := fun same => some (Char.toNat_inj.mp same)
    have least : '0'.toNat ≤ first.toNat := digit.1
    change 1 ≤ 10 * 0 + (first.toNat - '0'.toNat)
    omega
  have split : naturalOf (first :: rest) = naturalOf [first] * 10 ^ rest.length + naturalOf rest :=
    naturalOf_append [first] rest
  calc 10 ^ rest.length ≤ naturalOf [first] * 10 ^ rest.length := Nat.le_mul_of_pos_left _ size
    _ ≤ naturalOf (first :: rest) := split ▸ Nat.le_add_right _ _

/-- A run of digits with more of them than any float has is read as an infinite float. -/
theorem decodeChars_endless {first : Char} {rest : List Char}
    (digits : ∀ c ∈ first :: rest, isDigit c = true) (some : first ≠ '0')
    (endless : 320 ≤ rest.length)
    : decodeChars (first :: rest) = .float infinity := by
  obtain ⟨n, isNumber⟩ : ∃ n, naturalOf (first :: rest) = n := ⟨_, rfl⟩
  have huge : 10 ^ rest.length ≤ n :=
    isNumber ▸ pow_le_naturalOf_cons (digits first List.mem_cons_self) some
  have read : Numeral.read? (first :: rest) = .some (⟨first :: rest, none, none⟩, []) := by
    have whole := Numeral.read?_append (List.cons_ne_nil first rest) digits (stops_nil _)
    rwa [List.append_nil] at whole
  have word : Word.ofInt? (signed false n) = none := by
    have large : wordBound ≤ n :=
      calc wordBound ≤ (10 ^ 19 : ℕ) := by decide
        _ ≤ (10 ^ rest.length : ℕ) := by
          exact_mod_cast Nat.pow_le_pow_right (by decide) (by omega)
        _ ≤ n := by exact_mod_cast huge
    exact dif_neg (fun fits => (large.trans_lt fits.2).false)
  have value : (Numeral.mk (first :: rest) none none).toFloat = infinity := by
    have count : rest.length < digitCount n :=
      (Nat.pow_lt_pow_iff_right (by decide)).mp (huge.trans_lt (lt_pow_digitCount n))
    have scale : ((Nat.toDigits 10 n).length : ℤ) + 0 = digitCount n := add_zero _
    have pos : 0 < n := (Nat.pow_pos (by decide)).trans_le huge
    rw [Numeral.toFloat_eq, Numeral.digits, Option.getD_none, List.append_nil, isNumber]
    change nearestFloat n 0 = infinity
    rw [nearestFloat, scale, if_neg (by omega), if_pos (by omega)]
  have number : readNumber? (first :: rest) = .some (.float infinity) := by
    have unsigned : sign (first :: rest) = (false, first :: rest) := sign_signText read false
    simp [readNumber?, unsigned, read, Numeral.natural?, isNumber, word, value, withSign]
  have trimmed : trim (first :: rest) = first :: rest :=
    trimmed_of_bare (fun c member => isBare_of_isDigit (digits c member))
  rw [decodeChars, trimmed, ofTrimmed, scalar?, number]
  rfl

/-- Such a number is written as a word, which is read back as text. -/
theorem decode_source_endless
    : decode (.ofList (List.replicate 321 '9')) = .float infinity
      ∧ decode (decode (.ofList (List.replicate 321 '9'))).source = .verbatim "inf"
      ∧ decode (decode (.ofList (List.replicate 321 '9'))).source
        ≠ decode (.ofList (List.replicate 321 '9')) := by
  have read : decode (.ofList (List.replicate 321 '9')) = .float infinity := by
    rw [decode, String.toList_ofList, List.replicate_succ]
    refine decodeChars_endless (fun c member => ?_) (by decide) (List.length_replicate ▸ le_rfl)
    rw [← List.replicate_succ] at member
    rw [List.eq_of_mem_replicate member]
    rfl
  have word : decode (Literal.float infinity).source = .verbatim "inf" := rfl
  rw [read, word]
  exact ⟨rfl, rfl, nofun⟩

end QuizVariants.Literal
