import Mathlib
import QuizVariants.Proofs.Decimal.Rounding

/-! Floats and their bits.
The lemmas about the parts of a float are in Batteries, in a module that no part of Mathlib imports.
-/

namespace QuizVariants.Decimal

open Float.Model Float.Model.UnpackedFloat

/-- Whether a sign is a minus. -/
def isMinus : Sign → Bool
  | .negative => true
  | .positive => false

/-- What a float denotes, given its parts. -/
def Denotation.ofParts : UnpackedFloat → Denotation
  | .notANumber => .nan
  | .infinity sign => .infinite (isMinus sign)
  | .zero sign => .finite (isMinus sign) 0 leastExponent
  | .finite sign mantissa exponent _ => .finite (isMinus sign) mantissa exponent

section

variable (b : BitVec Format.binary64.numBits)

theorem toNat_unpackMantissa : (unpackMantissa b).toNat = b.toNat % 2 ^ 52 := by
  rw [unpackMantissa_def, BitVec.extractLsb'_toNat]
  rfl

theorem toNat_unpackExponent : (unpackExponent b).toNat = b.toNat / 2 ^ 52 % 2 ^ 11 := by
  rw [unpackExponent_def, BitVec.extractLsb'_toNat, Nat.shiftRight_eq_div_pow]

theorem isMinus_unpackSign
    : isMinus (Sign.ofBitVec (unpackSign b)) = decide (b.toNat / 2 ^ 52 / 2 ^ 11 % 2 = 1) := by
  have bit : (unpackSign b).toNat = b.toNat / 2 ^ 52 / 2 ^ 11 % 2 := by
    rw [unpackSign_def, BitVec.extractLsb'_toNat, Nat.shiftRight_eq_div_pow, Nat.div_div_eq_div_mul]
    rfl
  rw [← bit]
  generalize unpackSign b = sign
  revert sign
  decide

end

/-- The bit that is not stored stands above the stored ones. -/
theorem toNat_withImplied {stored : BitVec 52} : (1#1 ++ stored).toNat = stored.toNat + 2 ^ 52 := by
  rw [BitVec.toNat_append, ← Nat.shiftLeft_add_eq_or_of_lt stored.isLt, Nat.add_comm]
  rfl

/-- What the bits of a float denote, by cases on the values of the exponent that mean something
else. -/
theorem Denotation.ofFloat_eq (x : Float) : Denotation.ofFloat x = .ofParts x.toModel.unpack := by
  obtain ⟨b, same⟩ : ∃ b : BitVec Format.binary64.numBits, b = x.toModel.toBits.toBitVec :=
    ⟨_, rfl⟩
  have number : x.toBits.toNat = b.toNat := by rw [same]; rfl
  have mantissa : b.toNat % impliedBit = (unpackMantissa b).toNat := (toNat_unpackMantissa b).symm
  have exponent : b.toNat / impliedBit % exponentCount = (unpackExponent b).toNat :=
    (toNat_unpackExponent b).symm
  have negative : decide (b.toNat / impliedBit / exponentCount % 2 = 1)
      = isMinus (Sign.ofBitVec (unpackSign b)) := (isMinus_unpackSign b).symm
  rw [ Denotation.ofFloat, Float.Model.unpack, ← same, number, Denotation.ofBits]
  simp only [mantissa, exponent, negative, UnpackedFloat.unpack]
  have bias : (Format.binary64.exponentBias : ℤ) + (52 : ℕ) = 1075 := rfl
  by_cases top : unpackExponent b = -1#11
  · by_cases none : unpackMantissa b = 0#52
    · simp only [top, none]
      rfl
    · have some : (unpackMantissa b).toNat ≠ 0 := fun zero => none (BitVec.toNat_inj.mp zero)
      simp only [top, none, some, ↓reduceIte]
      rfl
  · by_cases bottom : unpackExponent b = 0#11
    · by_cases none : unpackMantissa b = 0#52
      · simp only [bottom, none]
        rfl
      · simp only [bottom, none, ↓reduceDIte]
        rfl
    · have below : (unpackExponent b).toNat + 1 ≠ exponentCount :=
        fun last => top (BitVec.toNat_inj.mp (Nat.succ.inj last))
      have above : (unpackExponent b).toNat ≠ 0 := fun first => bottom (BitVec.toNat_inj.mp first)
      simp only [top, below, bottom, above, bias, ↓reduceIte, ofParts]
      rw [toNat_withImplied, leastExponent]
      congr 1
      omega

/-- A float that is unpacked is in its normal form. -/
theorem canonical_of_unpack {x : Float} {sign : Sign} {m : ℕ} {e : ℤ} {pos : 0 < m}
    (h : x.toModel.unpack = .finite sign m e pos)
    : Canonical m e := by
  obtain ⟨b, same⟩ : ∃ b : BitVec Format.binary64.numBits, b = x.toModel.toBits.toBitVec :=
    ⟨_, rfl⟩
  have bias : (Format.binary64.exponentBias : ℤ) + (52 : ℕ) = 1075 := rfl
  have stored : (unpackMantissa b).toNat < 2 ^ 52 := (unpackMantissa b).isLt
  rw [Float.Model.unpack, ← same] at h
  simp only [UnpackedFloat.unpack, bias] at h
  split at h
  · split at h <;> exact nomatch h
  · next top =>
    have below : (unpackExponent b).toNat ≠ 2047 := fun last => top (BitVec.toNat_inj.mp last)
    have bounded : (unpackExponent b).toNat < 2 ^ 11 := (unpackExponent b).isLt
    split at h
    · next bottom =>
      split at h
      · exact nomatch h
      · obtain ⟨_, rfl, rfl⟩ := UnpackedFloat.finite.inj h
        have first : ((unpackExponent b).toNat : ℤ) = 0 := by rw [bottom]; rfl
        exact ⟨pos, by omega, by omega, by omega, Or.inr (by omega)⟩
    · next bottom =>
      have above : (unpackExponent b).toNat ≠ 0 := fun first => bottom (BitVec.toNat_inj.mp first)
      obtain ⟨_, rfl, rfl⟩ := UnpackedFloat.finite.inj h
      rw [toNat_withImplied] at pos ⊢
      exact ⟨pos, by omega, by omega, by omega, Or.inl (by omega)⟩

theorem Canonical.log2 {m : ℕ} {e : ℤ} (h : Canonical m e) : m.log2 + 1 = 53 ↔ 2 ^ 52 ≤ m := by
  have less := (Nat.log2_lt h.pos.ne').mpr h.small
  rw [← Nat.le_log2 h.pos.ne']
  omega

/-- A float in its normal form is packed without a loss, by cases on whether its first bit is
stored. -/
theorem Canonical.unpack_pack {m : ℕ} {e : ℤ} (h : Canonical m e) (sign : Sign)
    : (Float.Model.pack (.finite sign m e h.pos)).unpack = .finite sign m e h.pos := by
  have bias : (Format.binary64.exponentBias : ℤ) = 1023 := rfl
  have bits : Format.binary64.mantissaBits = 53 := rfl
  have least := h.least
  have greatest := h.greatest
  have small := h.small
  have fits : ¬ 2 ^ 11 ≤ (e + 1023 + (52 : ℕ)).toNat + 1 := by omega
  change UnpackedFloat.unpack _ (UnpackedFloat.pack Format.binary64 _) = _
  rw [UnpackedFloat.pack]
  simp only [bias, bits, fits, h.log2, ↓reduceIte]
  by_cases normal : 2 ^ 52 ≤ m
  · have biased : (BitVec.ofNat 11 (e + 1023 + (52 : ℕ)).toNat).toNat = (e + 1075).toNat := by
      rw [BitVec.toNat_ofNat, Nat.mod_eq_of_lt (by omega)]
      omega
    have top : BitVec.ofNat 11 (e + 1023 + (52 : ℕ)).toNat ≠ -1#11 := fun same => by
      have last : (e + 1075).toNat = 2047 := biased ▸ congrArg BitVec.toNat same
      omega
    have bottom : BitVec.ofNat 11 (e + 1023 + (52 : ℕ)).toNat ≠ 0#11 := fun same => by
      have first : (e + 1075).toNat = 0 := biased ▸ congrArg BitVec.toNat same
      omega
    have stored : (1#1 ++ BitVec.ofNat 52 m).toNat = m := by
      rw [toNat_withImplied, BitVec.toNat_ofNat]
      omega
    simp only [normal, ↓reduceIte, UnpackedFloat.unpack, unpackMantissa_packComponents,
      unpackExponent_packComponents, unpackSign_packComponents, Sign.ofBitVec_toBitVec, top, bottom,
      stored, biased, bias, UnpackedFloat.finite.injEq, true_and]
    omega
  · obtain rfl : e = -1074 := h.normal.resolve_left normal
    have stored : (BitVec.ofNat 52 m).toNat = m := by
      rw [BitVec.toNat_ofNat]
      omega
    have some : BitVec.ofNat 52 m ≠ 0#52 := fun same => by
      have zero : m = 0 := stored ▸ congrArg BitVec.toNat same
      exact h.pos.ne' zero
    have top : 0#11 ≠ -1#11 := by decide
    simp only [normal, ↓reduceIte, UnpackedFloat.unpack, unpackMantissa_packComponents,
      unpackExponent_packComponents, unpackSign_packComponents, Sign.ofBitVec_toBitVec, top, some,
      ↓reduceDIte, stored]
    rfl

/-- A float is given by its parts. -/
theorem ofModel_pack_unpack (x : Float) : Float.ofModel (.pack x.toModel.unpack) = x :=
  Float.ofBits_toBits x

end QuizVariants.Decimal
