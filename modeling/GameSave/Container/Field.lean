import GameSave.Container.Source
import GameSave.Text.Utf8
/-!
Fields: byte strings and texts behind their lengths.
-/

namespace GameSave

/-- Why a field could not be read. -/
inductive FieldFault where
  | source (fault : SourceFault)
  /-- The length is beyond what a field may have. -/
  | tooLong (length : Nat)
  /-- The source ended inside the field. -/
  | cutShort (expected got : Nat)
  /-- The field should be a text and is not UTF-8. -/
  | notText (fault : Text.Utf8Fault)
deriving DecidableEq, Repr

def FieldFault.message : FieldFault → String
  | .source fault => fault.message
  | .tooLong length => "field length " ++ length.repr ++ " exceeds limit"
  | .cutShort expected got => "expected " ++ expected.repr ++ " bytes, got " ++ got.repr
  | .notText fault => fault.message

/-- A byte string that is too long for a field. -/
structure OversizedField where
  length : Nat
deriving DecidableEq, Repr

def OversizedField.message (e : OversizedField) : String :=
  "field of " ++ e.length.repr ++ " bytes is too large to frame"

namespace Field

/-- The greatest length of a field. A greater one is taken for damage and not for a wish. -/
def maxLength : Nat := 1024 * 1024 * 1024

def encode (bytes : Bytes) : Except OversizedField Bytes :=
  if bytes.length ≤ maxLength then .ok (LittleEndian.ofNat 4 bytes.length ++ bytes)
  else .error ⟨bytes.length⟩

/-- A text behind the length of its UTF-8 form. -/
def encodeText (s : String) : Except OversizedField Bytes := encode (Text.Utf8.encode s)

def read (s : ByteSource) : Except FieldFault (Bytes × ByteSource) :=
  match s.readExactly 4 with
  | .error fault => .error (.source fault)
  | .ok (length, s) =>
    let length := LittleEndian.toNat length
    if maxLength < length then .error (.tooLong length)
    else
      match s.readUpTo length with
      | .error fault => .error (.source fault)
      | .ok (bytes, s) =>
        if bytes.length = length then .ok (bytes, s) else .error (.cutShort length bytes.length)

def readText (s : ByteSource) : Except FieldFault (String × ByteSource) :=
  match read s with
  | .error fault => .error fault
  | .ok (bytes, s) =>
    match Text.Utf8.decode bytes with
    | .error fault => .error (.notText fault)
    | .ok text => .ok (text, s)

end Field

end GameSave
