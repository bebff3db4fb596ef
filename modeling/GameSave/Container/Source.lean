import GameSave.Bytes
/-!
Sources of bytes.

A source delivers its bytes in bursts of whatever size suits it, and it may fail at some offset.
Those who read from it ask again until they have what they want, so that the sizes of the bursts
never show.
-/

namespace GameSave

/-- Why a source did not deliver the bytes that were wanted. -/
inductive SourceFault where
  | ended
  | failed (reason : String)
deriving DecidableEq, Repr

def SourceFault.message : SourceFault → String
  | .ended => "failed to fill whole buffer"
  | .failed reason => reason

/-- Where a source fails, and what it says then. -/
structure SourceFailure where
  offset : Nat
  reason : String
deriving DecidableEq, Repr

/-- A source of bytes, as far as it is not read yet. -/
structure ByteSource where
  /-- The bytes still to come. -/
  pending : Bytes
  /-- How many bytes have come already. -/
  offset : Nat
  /-- The most bytes that a read at an offset delivers. It delivers one in any case. -/
  burst : Nat → Nat
  /-- The first offset whose byte the source cannot deliver. -/
  failure : Option SourceFailure

namespace ByteSource

/-- Bytes in memory: they all come at once, and nothing fails. -/
def ofBytes (bytes : Bytes) : ByteSource :=
  let size := bytes.length
  ⟨bytes, 0, fun _ => size, none⟩

/-- How many bytes a read for at most `most` bytes asks for. -/
def request (s : ByteSource) (most : Nat) : Nat :=
  let n := min most (max 1 (s.burst s.offset))
  match s.failure with
  | some failure => min n (failure.offset - s.offset)
  | none => n

/-- Hands the next `n` bytes over, or what is left if that is less. -/
def advance (s : ByteSource) (n : Nat) : Bytes × ByteSource :=
  let (front, rest) := s.pending.splitAt n
  (front, { s with pending := rest, offset := s.offset + front.length })

/-- One read for at most `most` bytes. It delivers nothing only at the end of the source, or if
nothing was asked for. It fails only if it needs a byte from the failing offset on. -/
def read (s : ByteSource) (most : Nat) : Except SourceFault (Bytes × ByteSource) :=
  if most = 0 then .ok ([], s)
  else
    match s.failure with
    | some failure =>
      if failure.offset ≤ s.offset then .error (.failed failure.reason)
      else .ok (s.advance (s.request most))
    | none => .ok (s.advance (s.request most))

/-- Reads until `wanted` bytes are there or the source ends, and puts the bursts together. Each
read delivers a byte at least, so as much fuel as bytes are wanted is enough. -/
def gather : (fuel wanted : Nat) → List Bytes → ByteSource →
    Except SourceFault (Bytes × ByteSource)
  | 0, _, bursts, s => .ok (bursts.reverse.flatten, s)
  | fuel + 1, wanted, bursts, s =>
    match s.read wanted with
    | .error fault => .error fault
    | .ok ([], s) => .ok (bursts.reverse.flatten, s)
    | .ok (b :: burst, s) =>
      gather fuel (wanted - (b :: burst).length) ((b :: burst) :: bursts) s

/-- The next `n` bytes, or as many as there are. -/
def readUpTo (s : ByteSource) (n : Nat) : Except SourceFault (Bytes × ByteSource) :=
  gather n n [] s

def readExactly (s : ByteSource) (n : Nat) : Except SourceFault (Bytes × ByteSource) :=
  match s.readUpTo n with
  | .error fault => .error fault
  | .ok (bytes, s) => if bytes.length = n then .ok (bytes, s) else .error .ended

end ByteSource

end GameSave
