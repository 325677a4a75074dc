import QuizVariants.Decimal.Layout
import QuizVariants.Proofs.Decimal.Shortest

/-! Texts of decimals.
The digits of a decimal are written with a point or an exponent, and are read back as the decimal.
Main statement: a finite float is read back from its text.
-/

namespace QuizVariants.Decimal

open QuizVariants.Text

/-- The power of ten that a numeral is written with. -/
def Numeral.power (n : Numeral) : ℤ :=
  match n.exponent with
  | none => 0
  | some (negative, digits) => signed negative (naturalOf digits)

/-- The digits of a numeral before and after the point. -/
def Numeral.digits (n : Numeral) : List Char :=
  n.whole ++ n.fraction.getD []

/-- The number that a numeral stands for. -/
def Numeral.toRat (n : Numeral) : ℚ :=
  naturalOf n.digits * 10 ^ (n.power - (n.fraction.getD []).length)

theorem Numeral.toFloat_eq (n : Numeral)
    : n.toFloat = nearestFloat (naturalOf n.digits) (n.power - (n.fraction.getD []).length) :=
  rfl

-----------------------------------------------------------------------------------------
-- Runs of digits
-----------------------------------------------------------------------------------------

theorem naturalOf_append (digits more : List Char)
    : naturalOf (digits ++ more) = naturalOf digits * 10 ^ more.length + naturalOf more := by
  have step (start : ℕ) : more.foldl (fun n digit => 10 * n + (digit.toNat - '0'.toNat)) start
      = start * 10 ^ more.length + naturalOf more := by
    induction more generalizing start with
    | nil => simp [naturalOf]
    | cons digit more ih =>
        rw [naturalOf, List.foldl_cons, List.foldl_cons, ih, ih, List.length_cons, pow_succ]
        ring
  rw [naturalOf, List.foldl_append, step]
  rfl

theorem naturalOf_replicate (count : ℕ) : naturalOf (List.replicate count '0') = 0 := by
  induction count with
  | zero => rfl
  | succ count ih =>
      rw [List.replicate_succ', naturalOf_append, ih, Nat.zero_mul]
      rfl

theorem isDigit_of_mem_replicate {count : ℕ} {c : Char} (h : c ∈ List.replicate count '0')
    : isDigit c = true := by
  rw [List.eq_of_mem_replicate h]
  rfl

-----------------------------------------------------------------------------------------
-- Decimals are read back
-----------------------------------------------------------------------------------------

/-- An exponent is read with its sign, if it has one. -/
theorem exponent?_text (signed : Bool) (power : ℤ)
    : exponent? ('e' :: ((if power < 0 then ['-'] else if signed then ['+'] else [])
          ++ digitsOf power.natAbs))
        = some ((decide (power < 0), digitsOf power.natAbs), []) := by
  have some : (digitsOf power.natAbs).isEmpty = false :=
    List.isEmpty_eq_false_iff.mpr (digitsOf_ne_nil _)
  have digits : ∀ c ∈ digitsOf power.natAbs, isDigit c = true := fun _ => isDigit_of_mem_digitsOf
  unfold exponent?
  by_cases negative : power < 0
  · simp [negative, digitRun_digitsOf, some]
  · cases signed
    · simp only [negative, ↓reduceIte, Bool.false_eq_true, List.nil_append, true_or, decide_false]
      -- Digits start with no sign.
      split
      · next rest starts => exact absurd (digits '-' (starts ▸ List.mem_cons_self)) (by decide)
      · next rest starts => exact absurd (digits '+' (starts ▸ List.mem_cons_self)) (by decide)
      · simp [digitRun_digitsOf, some]
    · simp [negative, digitRun_digitsOf, some]

/-- A text is read as a numeral with a point or an exponent that stands for a number. -/
def ReadsAs (text : List Char) (v : ℚ) : Prop :=
  ∃ numeral, Numeral.read? text = some (numeral, []) ∧ numeral.natural? = none ∧ numeral.toRat = v

theorem readsAs_point {whole fraction : List Char} (nonempty : whole ≠ [])
    (all : ∀ c ∈ whole, isDigit c = true) (others : ∀ c ∈ fraction, isDigit c = true)
    : ReadsAs (whole ++ '.' :: fraction)
        (naturalOf (whole ++ fraction) * 10 ^ (-(fraction.length : ℤ))) := by
  have read := Numeral.read?_point nonempty all others (stops_nil isDigit)
  rw [List.append_nil] at read
  refine ⟨⟨whole, some fraction, none⟩, read, rfl, ?_⟩
  simp [Numeral.toRat, Numeral.digits, Numeral.power]

/-- The text of a decimal without exponent is read back, by cases on where the point stands. -/
theorem readsAs_pointText (n : ℕ) (exponent : ℤ)
    : ReadsAs (pointText true (digitsOf n) exponent) (n * 10 ^ exponent) := by
  have digits : ∀ c ∈ digitsOf n, isDigit c = true := fun _ => isDigit_of_mem_digitsOf
  have zeros (count : ℕ) : ∀ c ∈ List.replicate count '0', isDigit c = true :=
    fun _ => isDigit_of_mem_replicate
  have zero : ∀ c ∈ ['0'], isDigit c = true := List.forall_mem_singleton.mpr rfl
  unfold pointText
  dsimp only
  split
  · next whole =>
    obtain ⟨count, rfl⟩ := Int.eq_ofNat_of_zero_le whole
    have value : naturalOf (digitsOf n ++ List.replicate count '0' ++ ['0']) = n * 10 ^ count * 10 := by
      rw [naturalOf_append, naturalOf_append, naturalOf_digitsOf, naturalOf_replicate,
        List.length_replicate]
      rfl
    have read := readsAs_point
      (List.append_ne_nil_of_left_ne_nil (digitsOf_ne_nil n) (List.replicate count '0'))
      (List.forall_mem_append.mpr ⟨digits, zeros count⟩) zero
    have number : ((n * 10 ^ count * 10 : ℕ) : ℚ) * 10 ^ (-(['0'].length : ℤ))
        = n * 10 ^ (count : ℤ) := by
      rw [List.length_singleton, zpow_natCast, Nat.cast_one, zpow_neg_one]
      push_cast
      rw [mul_inv_cancel_right₀ (by norm_num)]
    rw [value, number] at read
    exact read
  · next below =>
    split
    · next inside =>
      obtain ⟨before, isBefore⟩ : ∃ before : ℕ, (digitsOf n).length + exponent = before :=
        ⟨((digitsOf n).length + exponent).toNat, by omega⟩
      have place : ((digitsOf n).length + exponent).toNat = before := by omega
      have some : (digitsOf n).take before ≠ [] := by
        rw [List.ne_nil_iff_length_pos, List.length_take]
        omega
      have read := readsAs_point some (fun c member => digits c (List.mem_of_mem_take member))
        (fun c (member : c ∈ (digitsOf n).drop before) => digits c (List.mem_of_mem_drop member))
      have after : (-(((digitsOf n).drop before).length : ℤ)) = exponent := by
        rw [List.length_drop]
        omega
      rwa [List.take_append_drop, naturalOf_digitsOf, after, ← place] at read
    · next outside =>
      obtain ⟨zeros', isZeros⟩ : ∃ count : ℕ, -((digitsOf n).length + exponent) = count :=
        ⟨(-((digitsOf n).length + exponent)).toNat, by omega⟩
      have place : (-((digitsOf n).length + exponent)).toNat = zeros' := by omega
      have read := readsAs_point (List.cons_ne_nil '0' []) zero
        (List.forall_mem_append.mpr ⟨zeros zeros', digits⟩)
      have value : naturalOf (['0'] ++ (List.replicate zeros' '0' ++ digitsOf n)) = n := by
        rw [naturalOf_append, naturalOf_append, naturalOf_replicate, naturalOf_digitsOf, Nat.zero_mul,
          Nat.zero_add]
        exact Nat.add_eq_right.mpr (Nat.zero_mul _)
      have after : (-((List.replicate zeros' '0' ++ digitsOf n).length : ℤ)) = exponent := by
        rw [List.length_append, List.length_replicate]
        omega
      rwa [value, after, ← place] at read

theorem signed_digitsOf (power : ℤ)
    : signed (decide (power < 0)) (naturalOf (digitsOf power.natAbs)) = power := by
  rw [naturalOf_digitsOf]
  by_cases negative : power < 0
  · simp only [signed, negative, decide_true, ↓reduceIte]
    omega
  · simp only [signed, negative, decide_false, Bool.false_eq_true, ↓reduceIte]
    omega

/-- The text of a decimal with an exponent is read back, by cases on whether it has a point. -/
theorem readsAs_exponentText (signed : Bool) (n : ℕ) (exponent : ℤ)
    : ReadsAs (exponentText signed (digitsOf n) ((digitsOf n).length - 1 + exponent))
        (n * 10 ^ exponent) := by
  have value := naturalOf_digitsOf n
  obtain ⟨power, isPower⟩ : ∃ power : ℤ, power = (digitsOf n).length - 1 + exponent := ⟨_, rfl⟩
  obtain ⟨rest, isRest⟩ : ∃ rest, rest = 'e' :: ((if power < 0 then ['-'] else
      if signed then ['+'] else []) ++ digitsOf power.natAbs) := ⟨_, rfl⟩
  have written (whole : List Char) (fraction : Option (List Char))
      : withExponent whole fraction rest
          = (⟨whole, fraction, some (decide (power < 0), digitsOf power.natAbs)⟩, []) := by
    rw [withExponent, isRest, exponent?_text]
  have marked : Stops (fun c => isDigit c || c == '.') rest := isRest ▸ stops_cons.mpr rfl
  have ends : Stops isDigit rest := isRest ▸ stops_cons.mpr rfl
  have all : ∀ c ∈ digitsOf n, isDigit c = true := fun _ => isDigit_of_mem_digitsOf
  rw [← isPower]
  cases digits : digitsOf n with
  | nil => exact absurd digits (digitsOf_ne_nil n)
  | cons first more =>
      rw [digits] at isPower value all
      obtain ⟨digit, others⟩ := List.forall_mem_cons.mp all
      have one : ∀ c ∈ [first], isDigit c = true := List.forall_mem_singleton.mpr digit
      cases more with
      | nil =>
          have text : exponentText signed [first] power = [first] ++ rest := by
            simp [exponentText, isRest]
          have read := Numeral.read?_whole (List.cons_ne_nil first []) one marked
          rw [written, ← text] at read
          refine ⟨_, read, rfl, ?_⟩
          have same : power = exponent := by simp [isPower]
          simp [Numeral.toRat, Numeral.digits, Numeral.power, signed_digitsOf, value, same]
      | cons second more =>
          have text : exponentText signed (first :: second :: more) power
              = [first] ++ '.' :: (second :: more ++ rest) := by
            simp [exponentText, isRest]
          have read := Numeral.read?_point (List.cons_ne_nil first []) one others ends
          rw [written, ← text] at read
          refine ⟨_, read, rfl, ?_⟩
          have same : power - ((second :: more).length : ℤ) = exponent := by simp [isPower]
          simp only [Numeral.toRat, Numeral.digits, Numeral.power, signed_digitsOf, Option.getD_some,
            same]
          rw [← value]
          rfl

/-- The digits of a decimal are read back as the decimal, if whole numbers keep a point. -/
theorem Layout.readsAs_digits {layout : Layout} (pointed : ∀ power, layout.pointed power = true)
    (d : Digits)
    : ReadsAs (layout.digits d) (d.digits * 10 ^ d.exponent) := by
  unfold Layout.digits
  dsimp only
  split
  · rw [pointed]
    exact readsAs_pointText d.digits d.exponent
  · exact readsAs_exponentText layout.signedExponent d.digits d.exponent

/-- The text of a decimal has digits, a point, the mark of an exponent and its sign. -/
theorem Layout.bare_digits {layout : Layout} (unsigned : layout.signedExponent = false)
    (d : Digits)
    : ∀ c ∈ layout.digits d, isBare c = true := by
  have digits (n : ℕ) : ∀ c ∈ digitsOf n, isBare c = true :=
    fun _ member => isBare_of_isDigit (isDigit_of_mem_digitsOf member)
  have zeros (count : ℕ) : ∀ c ∈ List.replicate count '0', isBare c = true :=
    fun _ member => isBare_of_isDigit (isDigit_of_mem_replicate member)
  unfold Layout.digits
  dsimp only
  split
  · unfold pointText
    dsimp only
    split
    · refine List.forall_mem_append.mpr ⟨List.forall_mem_append.mpr ⟨digits _, zeros _⟩, ?_⟩
      split <;> exact List.all_eq_true.mp rfl
    · split
      · refine List.forall_mem_append.mpr ⟨fun c member => digits _ c (List.mem_of_mem_take member),
          List.forall_mem_cons.mpr ⟨rfl, fun c member => digits _ c (List.mem_of_mem_drop member)⟩⟩
      · refine List.forall_mem_append.mpr ⟨List.forall_mem_cons.mpr ⟨rfl,
          List.forall_mem_cons.mpr ⟨rfl, zeros _⟩⟩, digits _⟩
  · rw [unsigned]
    unfold exponentText
    refine List.forall_mem_append.mpr ⟨List.forall_mem_append.mpr ⟨?_,
      List.forall_mem_cons.mpr ⟨rfl, ?_⟩⟩, digits _⟩
    · have all := digits d.digits
      split
      · exact List.forall_mem_nil _
      · next digit same => rwa [same] at all
      · next digit more _ same =>
        rw [same] at all
        obtain ⟨first, others⟩ := List.forall_mem_cons.mp all
        exact List.forall_mem_cons.mpr ⟨first, List.forall_mem_cons.mpr ⟨rfl, others⟩⟩
    · split <;> exact List.all_eq_true.mp rfl

-----------------------------------------------------------------------------------------
-- Floats are read back
-----------------------------------------------------------------------------------------

theorem withSign_ofModel {m : ℕ} {e : ℤ} (h : Canonical m e) (sign : Float.Model.UnpackedFloat.Sign)
    : withSign (isMinus sign) (.ofModel (.pack (.finite .positive m e h.pos)))
        = .ofModel (.pack (.finite sign m e h.pos)) := by
  cases sign
  · change Float.ofModel (.pack (Float.Model.pack (.finite .positive m e h.pos)).unpack.neg) = _
    rw [h.unpack_pack]
    rfl
  · rfl

/-- A numeral stands for the float in whose interval its number lies. -/
theorem Canonical.toFloat_eq {m : ℕ} {e : ℤ} (h : Canonical m e) {n : Numeral}
    (inside : (Interval.ofFinite m e).Contains n.toRat)
    : n.toFloat = .ofModel (.pack (.finite .positive m e h.pos)) := by
  have some : 0 < naturalOf n.digits := by
    refine Nat.pos_of_ne_zero (fun zero => ?_)
    have pos := inside.pos h.pos
    rw [Numeral.toRat, zero, Nat.cast_zero, zero_mul] at pos
    exact lt_irrefl _ pos
  rw [n.toFloat_eq]
  exact h.nearestFloat_eq some inside

/-- The text of a finite float is a sign and a numeral that stands for the float. -/
theorem Layout.exists_numeral {layout : Layout} (pointed : ∀ power, layout.pointed power = true)
    {x : Float} (finite : x.isFinite = true)
    : ∃ negative d numeral, layout.write x = .ofList (signText negative ++ layout.digits d)
        ∧ Numeral.read? (layout.digits d) = some (numeral, []) ∧ numeral.natural? = none
        ∧ withSign negative numeral.toFloat = x := by
  have parts := ofModel_pack_unpack x
  change x.toModel.unpack.isFinite = true at finite
  have denoted := Denotation.ofFloat_eq x
  rw [Layout.write, denoted]
  cases unpacked : x.toModel.unpack with
  | notANumber => rw [unpacked] at finite; exact nomatch finite
  | infinity sign => rw [unpacked] at finite; exact nomatch finite
  | zero sign =>
      obtain ⟨numeral, read, pointed, value⟩ := layout.readsAs_digits pointed ⟨0, 0⟩
      refine ⟨isMinus sign, ⟨0, 0⟩, numeral, rfl, read, pointed, ?_⟩
      have none : naturalOf numeral.digits = 0 := by
        rw [Nat.cast_zero, zero_mul, Numeral.toRat, mul_eq_zero] at value
        exact_mod_cast value.resolve_right (by positivity)
      rw [numeral.toFloat_eq, none, nearestFloat, if_pos (Or.inl rfl), ← parts, unpacked]
      cases sign <;> rfl
  | finite sign m e pos =>
      have canonical := canonical_of_unpack unpacked
      obtain ⟨some, inside⟩ := canonical.shortest_mem layout.tie
      obtain ⟨numeral, read, pointed, value⟩ :=
        layout.readsAs_digits pointed (shortest layout.tie m e)
      refine ⟨isMinus sign, shortest layout.tie m e, numeral, ?_, read, pointed, ?_⟩
      · obtain ⟨less, rfl⟩ : ∃ less, m = less + 1 := ⟨m - 1, by omega⟩
        rfl
      · rw [canonical.toFloat_eq (value ▸ inside), withSign_ofModel canonical, ← parts, unpacked]

end QuizVariants.Decimal
