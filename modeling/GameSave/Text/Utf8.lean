import GameSave.Bytes
/-!
UTF-8: the bytes of a text, the text that bytes spell, and where the first fault lies in bytes
that spell none.
-/

namespace GameSave.Text

/-- Why a byte string is not UTF-8. -/
inductive Utf8Fault where
  /-- The `length` bytes from `index` on begin no character. -/
  | invalid (length index : Nat)
  /-- The bytes end inside the character that starts at `index`. -/
  | incomplete (index : Nat)
deriving DecidableEq, Repr

namespace Utf8Fault

def message : Utf8Fault → String
  | .invalid length index =>
    "invalid utf-8 sequence of " ++ toString length ++ " bytes from index " ++ toString index
  | .incomplete index => "incomplete utf-8 byte sequence from index " ++ toString index

end Utf8Fault

namespace Utf8

def encode (s : String) : Bytes := s.toUTF8.data.toList

/-- For each byte that must follow a leading byte, the least and greatest value that it may have.
A byte that leads no character has no answer. -/
def continuations (lead : UInt8) : Option (List (UInt8 × UInt8)) :=
  if lead < 0x80 then some []
  else if lead < 0xC2 then none
  else if lead < 0xE0 then some [(0x80, 0xBF)]
  else if lead = 0xE0 then some [(0xA0, 0xBF), (0x80, 0xBF)]
  else if lead = 0xED then some [(0x80, 0x9F), (0x80, 0xBF)]
  else if lead < 0xF0 then some [(0x80, 0xBF), (0x80, 0xBF)]
  else if lead = 0xF0 then some [(0x90, 0xBF), (0x80, 0xBF), (0x80, 0xBF)]
  else if lead < 0xF4 then some [(0x80, 0xBF), (0x80, 0xBF), (0x80, 0xBF)]
  else if lead = 0xF4 then some [(0x80, 0x8F), (0x80, 0xBF), (0x80, 0xBF)]
  else none

/-- What the bytes after a leading byte do. -/
inductive Continuation where
  /-- They complete the character; `rest` follows it. -/
  | complete (rest : Bytes)
  /-- Only the first `good` of them fit. -/
  | broken (good : Nat)
  /-- All fit, but they are too few. -/
  | short
deriving DecidableEq, Repr

/-- Compares the following bytes with the ranges that they must lie in. -/
def follow (good : Nat) : List (UInt8 × UInt8) → Bytes → Continuation
  | [], rest => .complete rest
  | _ :: _, [] => .short
  | (least, greatest) :: ranges, b :: rest =>
    if least ≤ b ∧ b ≤ greatest then follow (good + 1) ranges rest else .broken good

/-- The first fault of a byte string whose first byte has the given index, or `none` if it has no
fault. Each character takes at least one byte, so the length of the string is fuel enough. -/
def firstFault : (fuel index : Nat) → Bytes → Option Utf8Fault
  | 0, _, _ => none
  | _ + 1, _, [] => none
  | fuel + 1, index, lead :: rest =>
    match continuations lead with
    | none => some (.invalid 1 index)
    | some ranges =>
      match follow 0 ranges rest with
      | .complete rest => firstFault fuel (index + 1 + ranges.length) rest
      | .broken good => some (.invalid (1 + good) index)
      | .short => some (.incomplete index)

/-- The text that a byte string spells, if it is UTF-8. -/
def decode? (bytes : Bytes) : Option String := String.fromUTF8? ⟨bytes.toArray⟩

/-- The text that a byte string spells, or its first fault. -/
def decode (bytes : Bytes) : Except Utf8Fault String :=
  match decode? bytes with
  | some s => .ok s
  | none => .error ((firstFault bytes.length 0 bytes).getD (.incomplete 0))

private theorem fromUTF8?_toUTF8 (s : String) : String.fromUTF8? s.toUTF8 = some s := by
  have hValid : s.toUTF8.IsValidUTF8 := s.isValidUTF8
  simp only [String.fromUTF8?, dif_pos hValid]
  rfl

/-- Every text is read back from its bytes. -/
@[simp]
theorem decode?_encode (s : String) : decode? (encode s) = some s := by
  have hBytes : (⟨(encode s).toArray⟩ : ByteArray) = s.toUTF8 := by simp [encode]
  rw [decode?, hBytes, fromUTF8?_toUTF8]

/-- A text has only one form in bytes. -/
theorem encode_of_decode? {bytes : Bytes} {s : String} (h : decode? bytes = some s) :
    encode s = bytes := by
  simp only [decode?, String.fromUTF8?] at h
  split at h
  · rw [← Option.some.inj h]
    simp [encode, String.fromUTF8]
  · cases h

end Utf8

end GameSave.Text
