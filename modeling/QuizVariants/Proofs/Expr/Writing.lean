import QuizVariants.Proofs.Decimal.Digits
import QuizVariants.Proofs.Expr.Spelling

/-! Every expression can be written.
An expression without floats whose numbers are natural and whose names can be read has a spelling;
parentheses around all operands are enough.
-/

namespace QuizVariants.Expr

open QuizVariants.Decimal
open QuizVariants.Text
open QuizVariants.Parser

mutual

/-- Expressions without floats, with natural numbers and with names that can be read. -/
def IsWritable : Expr → Prop
  | .number value => value.isInteger = true ∧ 0 ≤ value.num
  | .float _ => False
  | .string _ => True
  | .bool _ => True
  | .ident name => IsVariable name
  | .list items => AreWritable items
  | .set items => AreWritable items
  | .unary _ operand => operand.IsWritable
  | .binary _ left right => left.IsWritable ∧ right.IsWritable
  | .call function positional keywords =>
    isName function.toList = true ∧ AreWritable positional ∧ KeywordsAreWritable keywords
  | .index target position => target.IsWritable ∧ position.IsWritable

def AreWritable : List Expr → Prop
  | [] => True
  | e :: es => e.IsWritable ∧ AreWritable es

def KeywordsAreWritable : List (String × Expr) → Prop
  | [] => True
  | (name, e) :: more => isName name.toList = true ∧ e.IsWritable ∧ KeywordsAreWritable more

end

/-- Every content can stand between quotes: backslashes and quotes are escaped. -/
theorem exists_quotes (content : List Char) : ∃ body, Quotes '"' content body := by
  induction content with
  | nil => exact ⟨[], .nil⟩
  | cons c content ih =>
      obtain ⟨body, quotes⟩ := ih
      by_cases special : c = '\\' ∨ c = '\'' ∨ c = '"'
      · exact ⟨_, .escaped special quotes⟩
      · refine ⟨_, .plain ⟨?_, ?_⟩ quotes⟩
        · exact fun same => special (.inr (.inr same))
        · exact fun same => special (.inl same)

/-- Expressions that are written can be separated by commas, by induction on them. -/
theorem exists_contents {es : List Expr}
    (h : ∀ e ∈ es, ∃ text, Spells (.expression .atom e) text)
    : ∃ text, Spells (.contents es false) text := by
  have items {e : Expr} {es : List Expr}
      (h : ∀ other ∈ e :: es, ∃ text, Spells (.expression .atom other) text)
      : ∃ text, Spells (.items (e :: es)) text := by
    induction es generalizing e with
    | nil =>
        obtain ⟨text, spells⟩ := h e List.mem_cons_self
        exact ⟨text, .item spells.atomic⟩
    | cons next es ih =>
        obtain ⟨first, others⟩ := List.forall_mem_cons.mp h
        obtain ⟨text, spells⟩ := first
        obtain ⟨more, later⟩ := ih others
        exact ⟨_, .moreItems spells.atomic later⟩
  cases es with
  | nil => exact ⟨[], .nothing (List.forall_mem_nil _)⟩
  | cons e es =>
      obtain ⟨text, spells⟩ := items h
      exact ⟨text, .contents spells⟩

theorem exists_arguments {first : Argument} {others : List Argument}
    (h : ∀ argument ∈ first :: others, ∃ text, Spells (.argument argument) text)
    : ∃ text, Spells (.arguments (first :: others)) text := by
  induction others generalizing first with
  | nil =>
      obtain ⟨text, spells⟩ := h first List.mem_cons_self
      exact ⟨text, .lastArgument spells⟩
  | cons next others ih =>
      obtain ⟨⟨text, spells⟩, later⟩ := List.forall_mem_cons.mp h
      obtain ⟨more, rest⟩ := ih later
      exact ⟨_, .moreArguments spells rest⟩

/-- A call is written with its positional arguments first. -/
theorem exists_call {function : String} {positional : List Expr}
    {keywords : List (String × Expr)} (named : isName function.toList = true)
    (values : ∀ e ∈ positional, ∃ text, Spells (.expression .atom e) text)
    (pairs : ∀ keyword ∈ keywords, isName keyword.1.toList = true
      ∧ ∃ text, Spells (.expression .atom keyword.2) text)
    : ∃ text, Spells (.expression .atom (.call function positional keywords)) text := by
  have none : IsGap [] := List.forall_mem_nil _
  have all : ∀ argument ∈ positional.map Argument.positional
        ++ keywords.map (fun keyword => Argument.keyword keyword.1 keyword.2),
      ∃ text, Spells (.argument argument) text := by
    intro argument member
    rcases List.mem_append.mp member with member | member
    · obtain ⟨e, here, rfl⟩ := List.mem_map.mp member
      obtain ⟨text, spells⟩ := values e here
      exact ⟨text, .positional spells.atomic⟩
    · obtain ⟨keyword, here, rfl⟩ := List.mem_map.mp member
      obtain ⟨name, text, spells⟩ := pairs keyword here
      exact ⟨_, .keyword none name none spells.atomic⟩
  rw [← ofCall_positional_keyword]
  generalize positional.map Argument.positional
    ++ keywords.map (fun keyword => Argument.keyword keyword.1 keyword.2) = arguments at all ⊢
  cases arguments with
  | nil => exact ⟨_, .callNothing named none none⟩
  | cons first others =>
      obtain ⟨text, spells⟩ := exists_arguments all
      exact ⟨_, .call named none spells⟩

mutual

/-- Every writable expression has a spelling: parentheses around all operands are enough. -/
theorem exists_spelling (e : Expr) (writable : e.IsWritable)
    : ∃ text, Spells (.expression .atom e) text := by
  match e with
  | .number value =>
      obtain ⟨whole, positive⟩ := writable
      obtain ⟨n, same⟩ := Int.eq_ofNat_of_zero_le positive
      have fits : Fits n := same ▸ value.num_fits
      obtain rfl : value = .integer n fits := Rational.ext_parts same (eq_of_beq whole)
      exact ⟨digitsOf n, .number (digitsOf_ne_nil n) (fun _ => isDigit_of_mem_digitsOf)
        (naturalOf_digitsOf n) fits⟩
  | .string text =>
      obtain ⟨body, quotes⟩ := exists_quotes text.toList
      have spelled := Spells.string (.inr rfl) quotes
      rw [String.ofList_toList] at spelled
      exact ⟨_, spelled⟩
  | .bool true => exact ⟨_, .bool (.head _)⟩
  | .bool false => exact ⟨_, .bool (.tail _ (.tail _ (.head _)))⟩
  | .ident name => exact ⟨_, .name writable⟩
  | .list items =>
      obtain ⟨text, contents⟩ := exists_contents (exists_spellings items writable)
      exact ⟨_, .list contents⟩
  | .set items =>
      obtain ⟨text, contents⟩ := exists_contents (exists_spellings items writable)
      exact ⟨_, .set contents⟩
  | .unary op operand =>
      obtain ⟨text, spells⟩ := exists_spelling operand writable
      exact ⟨_, (Spells.sign spells.atomic).grouped⟩
  | .binary op left right =>
      obtain ⟨first, before⟩ := exists_spelling left writable.1
      obtain ⟨second, after⟩ := exists_spelling right writable.2
      match op with
      | .comparison op => exact ⟨_, (Spells.comparison before.atomic after.atomic).grouped⟩
      | .arithmetic .add => exact ⟨_, (Spells.sum (.inl rfl) before.atomic after.atomic).grouped⟩
      | .arithmetic .sub => exact ⟨_, (Spells.sum (.inr rfl) before.atomic after.atomic).grouped⟩
      | .arithmetic .mul =>
          exact ⟨_, (Spells.product (.inl rfl) before.atomic after.atomic).grouped⟩
      | .arithmetic .div =>
          exact ⟨_, (Spells.product (.inr (.inl rfl)) before.atomic after.atomic).grouped⟩
      | .arithmetic .rem =>
          exact ⟨_, (Spells.product (.inr (.inr rfl)) before.atomic after.atomic).grouped⟩
      | .arithmetic .pow =>
          exact ⟨_, (Spells.power (.inr rfl) before.atomic after.atomic).grouped⟩
  | .call function positional keywords =>
      obtain ⟨named, values, pairs⟩ := writable
      exact exists_call named (exists_spellings positional values)
        (exists_keywordSpellings keywords pairs)
  | .index target position =>
      obtain ⟨first, before⟩ := exists_spelling target writable.1
      obtain ⟨second, after⟩ := exists_spelling position writable.2
      exact ⟨_, (Spells.index before.atomic after.atomic).grouped⟩

theorem exists_spellings (es : List Expr) (writable : AreWritable es)
    : ∀ e ∈ es, ∃ text, Spells (.expression .atom e) text := by
  match es with
  | [] => exact List.forall_mem_nil _
  | e :: es =>
      exact List.forall_mem_cons.mpr
        ⟨exists_spelling e writable.1, exists_spellings es writable.2⟩

theorem exists_keywordSpellings (keywords : List (String × Expr))
    (writable : KeywordsAreWritable keywords)
    : ∀ keyword ∈ keywords, isName keyword.1.toList = true
        ∧ ∃ text, Spells (.expression .atom keyword.2) text := by
  match keywords with
  | [] => exact List.forall_mem_nil _
  | (name, e) :: more =>
      obtain ⟨named, first, others⟩ := writable
      exact List.forall_mem_cons.mpr
        ⟨⟨named, exists_spelling e first⟩, exists_keywordSpellings more others⟩

end

end QuizVariants.Expr
