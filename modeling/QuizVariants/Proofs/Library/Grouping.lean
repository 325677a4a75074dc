import QuizVariants.Library.Format
import QuizVariants.Proofs.Decimal.Digits
import QuizVariants.Proofs.Text.Joined

/-! Digits in groups.
A comma stands before every third digit from the right that another digit precedes, so that the
digits are in groups of three behind a first one that may be shorter.
-/

namespace QuizVariants.Library

open QuizVariants.Decimal
open QuizVariants.Text

/-- Digits are split in groups of three, with up to three digits in front of them. -/
structure Groups (digits first : List Char) (rest : List (List Char)) : Prop where
  flatten : (first :: rest).flatten = digits
  nonempty : 1 ≤ first.length
  short : first.length ≤ 3
  triples : ∀ group ∈ rest, group.length = 3

variable {digits first : List Char} {rest : List (List Char)}

/-- Digits that are few enough are one group. -/
theorem groups_singleton (nonempty : 1 ≤ digits.length) (short : digits.length ≤ 3)
    : Groups digits digits [] :=
  ⟨List.flatten_singleton, nonempty, short, List.forall_mem_nil _⟩

/-- Three more digits are one more group. -/
theorem Groups.concat (h : Groups digits first rest) (a b c : Char)
    : Groups (digits ++ [a, b, c]) first (rest ++ [[a, b, c]]) where
  flatten := by rw [← List.cons_append, List.flatten_append, h.flatten, List.flatten_singleton]
  nonempty := h.nonempty
  short := h.short
  triples := List.forall_mem_append.mpr ⟨h.triples, List.forall_mem_singleton.mpr rfl⟩

/-- Counting from the last digit, every three digits are a group, by induction on the groups. -/
theorem exists_groups_of_reversed (reversed : List Char) (nonempty : reversed ≠ [])
    : ∃ first rest,
        Groups reversed.reverse first rest
        ∧ (groupReversed reversed).reverse = joinWith [','] (first :: rest) := by
  match reversed with
  | [a] => exact ⟨[a], [], groups_singleton (by simp) (by simp), rfl⟩
  | [a, b] => exact ⟨[b, a], [], groups_singleton (by simp) (by simp), rfl⟩
  | [a, b, c] => exact ⟨[c, b, a], [], groups_singleton (by simp) (by simp), rfl⟩
  | a :: b :: c :: d :: more =>
      obtain ⟨first, rest, groups, joined⟩ :=
        exists_groups_of_reversed (d :: more) (List.cons_ne_nil d more)
      refine ⟨first, rest ++ [[c, b, a]], ?_, ?_⟩
      · have last : (a :: b :: c :: d :: more).reverse = (d :: more).reverse ++ [c, b, a] := by simp
        rw [last]
        exact groups.concat c b a
      · have last : (groupReversed (a :: b :: c :: d :: more)).reverse
            = (groupReversed (d :: more)).reverse ++ ([','] ++ [c, b, a]) := by
          simp [groupReversed]
        rw [last, joined, ← List.cons_append,
          joinWith_append (List.cons_ne_nil first rest) (List.cons_ne_nil [c, b, a] [])]
        rfl

/-- Digits are written as their groups with commas between them. -/
theorem exists_groups (nonempty : digits ≠ [])
    : ∃ first rest,
        Groups digits first rest ∧ groupThousands digits = joinWith [','] (first :: rest) := by
  have groups := exists_groups_of_reversed digits.reverse (mt List.reverse_eq_nil_iff.mp nonempty)
  rwa [List.reverse_reverse] at groups

/-- An integer is written as its sign in front of its groups. -/
theorem groupedInteger_eq {n : Int}
    (joined : groupThousands (digitsOf n.natAbs) = joinWith [','] (first :: rest))
    : groupedInteger n = joinWith [','] ((signText (n < 0) ++ first) :: rest) := by
  rw [groupedInteger, joined, append_joinWith_cons, signText]
  simp only [decide_eq_true_eq]

/-- The groups in a row, behind the sign, are the decimal writing of an integer. -/
theorem Groups.flatten_signed {n : Int} (h : Groups (digitsOf n.natAbs) first rest)
    : ((signText (n < 0) ++ first) :: rest).flatten = Rational.integerText n := by
  rw [List.flatten_cons, List.append_assoc, ← List.flatten_cons, h.flatten, Rational.integerText,
    signText]
  simp only [decide_eq_true_eq]

theorem Groups.forall_isDigit {n : Nat} (h : Groups (digitsOf n) first rest)
    : ∀ group ∈ first :: rest, ∀ c ∈ group, isDigit c = true := by
  intro group among c member
  refine isDigit_of_mem_digitsOf (n := n) ?_
  rw [← h.flatten]
  exact List.mem_flatten_of_mem among member

/-- Neither the sign nor a group has a comma in it. -/
theorem Groups.comma_not_mem {n : Nat} (h : Groups (digitsOf n) first rest) (negative : Bool)
    : ∀ part ∈ (signText negative ++ first) :: rest, ',' ∉ part := by
  have plain : ∀ group ∈ first :: rest, ',' ∉ group := fun group among comma =>
    Bool.noConfusion (h.forall_isDigit group among ',' comma)
  have sign : ',' ∉ signText negative := by cases negative <;> decide
  obtain ⟨front, others⟩ := List.forall_mem_cons.mp plain
  refine List.forall_mem_cons.mpr ⟨?_, others⟩
  rw [List.mem_append, not_or]
  exact ⟨sign, front⟩

/-- Grouping loses no digit.
Every integer is written as groups of digits with commas between them: one to three digits behind
the sign, and three in each other group. Without the commas this is its decimal writing. -/
theorem commas_groups (n : Word)
    : ∃ text first rest,
        commas ⟨[.integer n.toInt n.fits], []⟩ = .ok (.string text)
        ∧ String.ofList (text.toList.filter (· ≠ ',')) = toString n.toInt
        ∧ splitAt ',' text.toList = (signText (n.toInt < 0) ++ first) :: rest
        ∧ 1 ≤ first.length
        ∧ first.length ≤ 3
        ∧ (∀ group ∈ rest, group.length = 3)
        ∧ ∀ group ∈ first :: rest, ∀ c ∈ group, isDigit c = true := by
  obtain ⟨first, rest, groups, joined⟩ := exists_groups (digitsOf_ne_nil n.toInt.natAbs)
  have plain := groups.comma_not_mem (n.toInt < 0)
  have written := groupedInteger_eq joined
  refine ⟨.ofList (groupedInteger n.toInt), first, rest, rfl, ?_, ?_, groups.nonempty, groups.short,
    groups.triples, groups.forall_isDigit⟩
  · rw [String.toList_ofList, written, filter_joinWith plain, groups.flatten_signed,
      ofList_integerText]
  · rw [String.toList_ofList, written, splitAt_joinWith (List.cons_ne_nil _ _) plain]

/-- The least integer has nineteen digits, and its first group one. -/
example : groupedInteger (-wordBound) = "-9,223,372,036,854,775,808".toList := by
  decide +kernel

end QuizVariants.Library
