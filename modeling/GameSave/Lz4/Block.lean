import GameSave.Bytes
/-!
LZ4 blocks.

A block is a sequence of steps. Each step copies some literal bytes to the output and then some
bytes from a given distance back in the output. The copy may run into the bytes that it writes
itself. The last step has literals only.
-/

namespace GameSave.Lz4

/-- Bytes from `offset` before the end of the output. -/
structure Match where
  offset : Nat
  length : Nat
deriving DecidableEq, Repr

/-- Literals and a match. -/
structure Sequence where
  literals : Bytes
  copy : Match
deriving DecidableEq, Repr

/-- The steps of a block. -/
structure Block where
  sequences : List Sequence
  lastLiterals : Bytes
deriving DecidableEq, Repr

namespace Block

def minMatch : Nat := 4

/-- A length of which a half byte holds what it can: from the mark on, more bytes are added until
one is not 255. -/
def halfByteMark : Nat := 15

/-! ### Output -/

/-- Output that grows at the end. Copies may reach back to `floor` and no further. -/
structure Output where
  bytes : Array UInt8
  floor : Nat

namespace Output

def addLiterals (out : Output) (literals : Bytes) : Output :=
  { out with bytes := literals.foldl Array.push out.bytes }

/-- Adds `length` bytes, each the one that is `offset` before the end at that time. -/
def addCopies (offset : Nat) : (length : Nat) → Array UInt8 → Array UInt8
  | 0, bytes => bytes
  | length + 1, bytes =>
    addCopies offset length (bytes.push (bytes.getD (bytes.size - offset) 0))

/-- Carries out a match, if it reaches back to bytes that can be seen. -/
def addMatch? (out : Output) (m : Match) : Option Output :=
  if m.offset = 0 ∨ out.bytes.size < out.floor + m.offset then none
  else some { out with bytes := addCopies m.offset m.length out.bytes }

/-- Carries out a step. The output must not grow beyond `most` bytes. -/
def addSequence? (most : Nat) (out : Output) (s : Sequence) : Option Output :=
  if most < out.bytes.size + s.literals.length + s.copy.length then none
  else (out.addLiterals s.literals).addMatch? s.copy

def addBlock? (most : Nat) (out : Output) (block : Block) : Option Output := do
  let out ← block.sequences.foldlM (addSequence? most) out
  if most < out.bytes.size + block.lastLiterals.length then none
  else return out.addLiterals block.lastLiterals

end Output

/-! ### Bytes of a block -/

/-- Reads what is added to a length: bytes up to the first that is not 255. -/
def readExtra : (extra : Nat) → Bytes → Option (Nat × Bytes)
  | _, [] => none
  | extra, b :: bytes =>
    if b = 255 then readExtra (extra + 255) bytes else some (extra + b.toNat, bytes)

/-- Reads a length of which the half byte is known. -/
def readLength (halfByte : Nat) (bytes : Bytes) : Option (Nat × Bytes) :=
  if halfByte = halfByteMark then readExtra halfByte bytes else some (halfByte, bytes)

/-- A step as it is read: with a match, or as the last. -/
inductive Step where
  | sequence (s : Sequence) (rest : Bytes)
  | last (literals : Bytes)

/-- Reads a step. The first byte has a half byte of each of the two lengths. -/
def readStep : Bytes → Option Step
  | [] => none
  | token :: bytes => do
    let (literalLength, bytes) ← readLength (token.toNat / 16) bytes
    let (literals, bytes) ← Bytes.split? literalLength bytes
    match bytes with
    | [] => return .last literals
    | [_] => failure
    | low :: high :: bytes =>
      let (extraLength, bytes) ← readLength (token.toNat % 16) bytes
      let offset := LittleEndian.toNat [low, high]
      return .sequence ⟨literals, ⟨offset, minMatch + extraLength⟩⟩ bytes

/-- Reads steps after those that are `done`, which are in reverse order. Each step takes a byte at
least. -/
def readSteps : (fuel : Nat) → List Sequence → Bytes → Option Block
  | 0, _, _ => none
  | fuel + 1, done, bytes =>
    match readStep bytes with
    | none => none
    | some (.last literals) => some ⟨done.reverse, literals⟩
    | some (.sequence s rest) => readSteps fuel (s :: done) rest

/-- The steps that the bytes of a block stand for. -/
def ofBytes? (bytes : Bytes) : Option Block := readSteps bytes.length [] bytes

def halfByte (length : Nat) : Nat := min length halfByteMark

/-- The bytes that are added to a length that its half byte does not hold. -/
def extraBytes (length : Nat) : Bytes :=
  if length < halfByteMark then []
  else
    let extra := length - halfByteMark
    List.replicate (extra / 255) 255 ++ [UInt8.ofNat (extra % 255)]

def token (literalLength extraLength : Nat) : UInt8 :=
  UInt8.ofNat (16 * halfByte literalLength + halfByte extraLength)

/-- The bytes of a step with a match. -/
def sequenceBytes (s : Sequence) : Bytes :=
  let extraLength := s.copy.length - minMatch
  token s.literals.length extraLength :: extraBytes s.literals.length ++ s.literals ++
    LittleEndian.ofNat 2 s.copy.offset ++ extraBytes extraLength

def toBytes (block : Block) : Bytes :=
  block.sequences.flatMap sequenceBytes ++
    (token block.lastLiterals.length 0 :: extraBytes block.lastLiterals.length ++
      block.lastLiterals)

end Block

end GameSave.Lz4
