import QuizVariants.Proofs.Decimal.Roots
import QuizVariants.Value.Order

/-! The order of floats.
Two floats have an order exactly if both of them are numbers. The quotient of two integers is one,
unless it is divided by zero.
-/

namespace QuizVariants.Decimal

open Float.Model Float.Model.UnpackedFloat

-----------------------------------------------------------------------------------------
-- Comparing
-----------------------------------------------------------------------------------------

/-- Floats that are numbers have an order, by cases on their kinds and signs. -/
theorem exists_compare {a b : UnpackedFloat} (ha : a ≠ .notANumber) (hb : b ≠ .notANumber)
    : ∃ order, a.compare b = some order := by
  cases a with
  | notANumber => exact absurd rfl ha
  | infinity s =>
      cases b with
      | notANumber => exact absurd rfl hb
      | infinity t => exact ⟨_, rfl⟩
      | zero t => cases s <;> exact ⟨_, rfl⟩
      | finite t m e pos => cases s <;> exact ⟨_, rfl⟩
  | zero s =>
      cases b with
      | notANumber => exact absurd rfl hb
      | infinity t => cases t <;> exact ⟨_, rfl⟩
      | zero t => exact ⟨_, rfl⟩
      | finite t m e pos => cases t <;> exact ⟨_, rfl⟩
  | finite s m e pos =>
      cases b with
      | notANumber => exact absurd rfl hb
      | infinity t => cases t <;> exact ⟨_, rfl⟩
      | zero t => cases s <;> exact ⟨_, rfl⟩
      | finite t n f pos' => cases s <;> cases t <;> exact ⟨_, rfl⟩

/-- The parts of finite floats compare the other way when they are exchanged. -/
theorem swap_parts (e f : ℤ) (m n : ℕ)
    : ((compare e f).then (compare m n)).swap = (compare f e).then (compare n m) := by
  rw [Ordering.swap_then, ← Std.OrientedCmp.eq_swap, ← Std.OrientedCmp.eq_swap]

/-- Exchanged floats have the opposite order, by cases on their kinds and signs. -/
theorem compare_swap (a b : UnpackedFloat) : b.compare a = (a.compare b).map Ordering.swap := by
  cases a with
  | notANumber => cases b <;> rfl
  | infinity s =>
      cases b with
      | notANumber => rfl
      | infinity t => cases s <;> cases t <;> rfl
      | zero t => cases s <;> rfl
      | finite t m e pos => cases s <;> rfl
  | zero s =>
      cases b with
      | notANumber => rfl
      | infinity t => cases t <;> rfl
      | zero t => rfl
      | finite t m e pos => cases t <;> rfl
  | finite s m e pos =>
      cases b with
      | notANumber => rfl
      | infinity t => cases t <;> rfl
      | zero t => cases s <;> rfl
      | finite t n f pos' =>
          cases s <;> cases t
          · exact congrArg some (congrArg Ordering.swap (swap_parts e f m n).symm)
          · rfl
          · rfl
          · exact congrArg some (swap_parts e f m n).symm

/-- The order that a float is given to another one is that of their parts. -/
theorem floatOrder?_eq (a b : Float)
    : Value.floatOrder? a b = a.toModel.unpack.compare b.toModel.unpack := by
  have less (x y : Float) : x < y ↔ x.toModel.unpack.compare y.toModel.unpack = some .lt := by
    change decide (x.toModel.lt y.toModel = true) = true ↔ _
    rw [decide_eq_true_iff]
    exact beq_iff_eq
  have equal : (a == b) = (a.toModel.unpack.compare b.toModel.unpack == some .eq) := rfl
  simp only [Value.floatOrder?, less, equal, compare_swap a.toModel.unpack b.toModel.unpack]
  rcases a.toModel.unpack.compare b.toModel.unpack with _ | _ | _ | _ <;> rfl

-----------------------------------------------------------------------------------------
-- Quotients of integers
-----------------------------------------------------------------------------------------

/-- The bits of an infinity differ from those of what is not a number. -/
theorem packedInfinity_ne_packedNaN (sign : Sign)
    : packedInfinity Format.binary64 sign ≠ packedNaN Format.binary64 := by
  cases sign <;> decide

/-- Bits whose exponent is not the last one stand for a number. -/
theorem packComponents_ne_packedNaN {sign : Sign} {exponent : BitVec 11} {mantissa : BitVec 52}
    (h : exponent ≠ -1#11)
    : packComponents Format.binary64 sign exponent mantissa ≠ packedNaN Format.binary64 := by
  intro same
  have exponents := congrArg unpackExponent same
  rw [packedNaN, unpackExponent_packComponents, unpackExponent_packComponents] at exponents
  exact h exponents

/-- Packing makes no number of a float only if it was none, by cases on what is packed. -/
theorem unpack_pack_ne_notANumber {a : UnpackedFloat} (h : a ≠ .notANumber)
    : (Float.Model.pack a).unpack ≠ .notANumber := by
  intro unpacked
  have packed : UnpackedFloat.pack Format.binary64 a = packedNaN Format.binary64 :=
    (unpack_eq_notANumber_iff_of_valid valid_pack).mp unpacked
  cases a with
  | notANumber => exact h rfl
  | infinity sign => exact packedInfinity_ne_packedNaN sign packed
  | zero sign => exact packComponents_ne_packedNaN (by decide) packed
  | finite sign m e pos =>
      simp only [UnpackedFloat.pack] at packed
      split at packed
      · exact packedInfinity_ne_packedNaN sign packed
      · next small =>
        have below : (e + Format.binary64.exponentBias
            + Format.binary64.mantissaBitsWithoutImplicit).toNat + 1 < 2 ^ 11 := not_le.mp small
        split at packed
        · refine packComponents_ne_packedNaN (fun last => ?_) packed
          have number := congrArg BitVec.toNat last
          rw [BitVec.toNat_ofNat, Nat.mod_eq_of_lt (by omega)] at number
          change _ = 2047 at number
          omega
        · exact packComponents_ne_packedNaN (by decide) packed

/-- Rounding gives a number. -/
theorem roundWithAccuracy_ne_notANumber (sign : Sign) (m : ℕ) (e : ℤ) (accuracy : Accuracy)
    : roundWithAccuracy Format.binary64 sign m e accuracy ≠ .notANumber := by
  intro same
  simp only [roundWithAccuracy] at same
  split at same <;> cases same

/-- A quotient by a finite float other than zero is a number. -/
theorem div_ne_notANumber {a : UnpackedFloat} (h : a ≠ .notANumber) (sign : Sign) (m : ℕ) (e : ℤ)
    (pos : 0 < m)
    : UnpackedFloat.div Format.binary64 a (.finite sign m e pos) ≠ .notANumber := by
  cases a with
  | notANumber => exact absurd rfl h
  | infinity s => exact fun h => nomatch h
  | zero s => exact fun h => nomatch h
  | finite s n f posN =>
      exact roundWithAccuracy_ne_notANumber (s / sign) (divCore Format.binary64 n f m e).1
        (divCore Format.binary64 n f m e).2.1 (divCore Format.binary64 n f m e).2.2

/-- A float whose bits denote a number is one. -/
theorem ne_notANumber_of_denotation {x : Float} (h : Denotation.ofFloat x ≠ .nan)
    : x.toModel.unpack ≠ .notANumber := by
  intro unpacked
  rw [ Denotation.ofFloat_eq, unpacked] at h
  exact h rfl

/-- The float nearest to a small natural number is a number. -/
theorem ofNat_ne_notANumber {n : ℕ} (small : n ≤ 2 ^ 63)
    : (Float.ofNat n).toModel.unpack ≠ .notANumber := by
  rcases small.eq_or_lt with rfl | less
  · exact ne_notANumber_of_denotation (by decide +kernel)
  rcases Nat.eq_zero_or_pos n with rfl | pos
  · exact ne_notANumber_of_denotation (by decide +kernel)
  · obtain ⟨m, e, _, _, unpacked, _⟩ := exists_ofNat pos less
    rw [unpacked]
    exact fun h => nomatch h

/-- The opposite of a number is a number. -/
theorem neg_ne_notANumber {x : Float} (h : x.toModel.unpack ≠ .notANumber)
    : (-x).toModel.unpack ≠ .notANumber := by
  change (Float.Model.pack (UnpackedFloat.neg x.toModel.unpack)).unpack ≠ _
  refine unpack_pack_ne_notANumber ?_
  cases same : x.toModel.unpack with
  | notANumber => exact absurd same h
  | infinity s => exact fun h => nomatch h
  | zero s => exact fun h => nomatch h
  | finite s m e pos => exact fun h => nomatch h

/-- The float nearest to a small integer is a number, by cases on its sign. -/
theorem ofInt_ne_notANumber {n : ℤ} (small : n.natAbs ≤ 2 ^ 63)
    : (Float.ofInt n).toModel.unpack ≠ .notANumber := by
  cases n with
  | ofNat n => exact ofNat_ne_notANumber small
  | negSucc n => exact neg_ne_notANumber (ofNat_ne_notANumber small)

/-- The quotient of a small integer by a small natural number other than zero is a number. -/
theorem ratio_ne_notANumber {num : ℤ} {den : ℕ} (numSmall : num.natAbs ≤ 2 ^ 63) (pos : 0 < den)
    (denSmall : den < 2 ^ 63)
    : (ratio num den).toModel.unpack ≠ .notANumber := by
  obtain ⟨m, e, _, _, unpacked, _⟩ := exists_ofNat pos denSmall
  change (Float.Model.pack (UnpackedFloat.div Format.binary64 (Float.ofInt num).toModel.unpack
    (Float.ofNat den).toModel.unpack)).unpack ≠ _
  rw [unpacked]
  exact unpack_pack_ne_notANumber (div_ne_notANumber (ofInt_ne_notANumber numSmall) _ _ _ _)

end QuizVariants.Decimal
