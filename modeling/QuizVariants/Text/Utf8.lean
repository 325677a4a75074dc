/-! UTF-8 text from bytes.
Decoding reports the first byte that belongs to no character, and whether the bytes there are
wrong or only end too early.
-/

namespace QuizVariants.Text

/-- Why a sequence of bytes is not UTF-8 text; `index` is where the last good character ends. -/
inductive Utf8Fault where
  /-- The `count` bytes at `index` start no character. -/
  | invalid (count index : Nat)
  /-- The bytes from `index` on start a character that is cut off. -/
  | incomplete (index : Nat)
  deriving Repr, DecidableEq

def Utf8Fault.message : Utf8Fault → String
  | .invalid count index => s!"invalid utf-8 sequence of {count} bytes from index {index}"
  | .incomplete index => s!"incomplete utf-8 byte sequence from index {index}"

/-- What a leading byte announces: the number of continuation bytes, the bits it
contributes, and the least and greatest second byte. -/
structure Utf8Lead where
  more : Nat
  bits : Nat
  least : Nat
  greatest : Nat

/-- Leading bytes of well-formed sequences, without overlong forms and surrogates. -/
def Utf8Lead.ofByte? (byte : Nat) : Option Utf8Lead :=
  if byte < 0x80 then some ⟨0, byte, 0, 0⟩
  else if 0xC2 ≤ byte ∧ byte ≤ 0xDF then some ⟨1, byte - 0xC0, 0x80, 0xBF⟩
  else if byte = 0xE0 then some ⟨2, 0, 0xA0, 0xBF⟩
  else if byte = 0xED then some ⟨2, 13, 0x80, 0x9F⟩
  else if 0xE1 ≤ byte ∧ byte ≤ 0xEF then some ⟨2, byte - 0xE0, 0x80, 0xBF⟩
  else if byte = 0xF0 then some ⟨3, 0, 0x90, 0xBF⟩
  else if byte = 0xF4 then some ⟨3, 4, 0x80, 0x8F⟩
  else if 0xF1 ≤ byte ∧ byte ≤ 0xF3 then some ⟨3, byte - 0xF0, 0x80, 0xBF⟩
  else none

/-- Reads the continuation bytes of a character: `read` bytes of it are read, `bits` is their
value, and the next byte lies between `least` and `greatest`. -/
def continuation (index read bits : Nat) : (more least greatest : Nat) → List Nat →
    Except Utf8Fault (Nat × List Nat)
  | 0, _, _, bytes => .ok (bits, bytes)
  | _ + 1, _, _, [] => .error (.incomplete index)
  | more + 1, least, greatest, byte :: bytes =>
    if least ≤ byte ∧ byte ≤ greatest then
      continuation index (read + 1) (bits * 64 + (byte - 0x80)) more 0x80 0xBF bytes
    else .error (.invalid read index)

/-- Reading continuation bytes never lengthens the rest. -/
theorem length_of_continuation {index read bits more least greatest value : Nat}
    {bytes rest : List Nat}
    (h : continuation index read bits more least greatest bytes = .ok (value, rest))
    : rest.length ≤ bytes.length := by
  induction more generalizing read bits least greatest bytes with
  | zero => simp_all [continuation]
  | succ more ih =>
    cases bytes with
    | nil => simp [continuation] at h
    | cons byte bytes =>
      simp only [continuation] at h
      split at h
      · exact Nat.le_succ_of_le (ih h)
      · simp at h

/-- Decodes bytes whose first one stands at `index` of the whole input. -/
def decodeFrom (index : Nat) : List Nat → Except Utf8Fault (List Char)
  | [] => .ok []
  | byte :: bytes =>
    match Utf8Lead.ofByte? byte with
    | none => .error (.invalid 1 index)
    | some lead =>
      match h : continuation index 1 lead.bits lead.more lead.least lead.greatest bytes with
      | .error fault => .error fault
      | .ok (value, rest) =>
        have : rest.length ≤ bytes.length := length_of_continuation h
        (decodeFrom (index + 1 + lead.more) rest).map (Char.ofNat value :: ·)
termination_by bytes => bytes.length

def decodeUtf8 (bytes : List Nat) : Except Utf8Fault (List Char) :=
  decodeFrom 0 bytes

end QuizVariants.Text
