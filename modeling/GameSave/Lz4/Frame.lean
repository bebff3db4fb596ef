import GameSave.Checksum
import GameSave.Lz4.Matching
/-!
LZ4 frames: blocks with a descriptor in front and checksums behind.

Reading follows what common decoders accept. The data of a frame may end wherever the size of a
block is expected, with or without an end mark, and what follows the end mark is not looked at.
-/

namespace GameSave.Lz4

/-- Why a byte string is no frame. -/
inductive FrameFault where
  /-- It ends inside the descriptor, a block or a checksum. -/
  | truncated
  | badMagic
  | unsupportedVersion
  | reservedBits
  | badBlockSize
  | descriptorChecksum
  | dictionary
  /-- A block is larger than the descriptor allows. -/
  | oversizedBlock
  | blockChecksum
  | malformedBlock
  | contentSize
  | contentChecksum
deriving DecidableEq, Repr

def FrameFault.message : FrameFault → String
  | .truncated => "LZ4 frame ends early"
  | .badMagic => "not an LZ4 frame"
  | .unsupportedVersion => "unsupported version of the LZ4 frame format"
  | .reservedBits => "reserved bits of the LZ4 frame are set"
  | .badBlockSize => "unsupported block size of the LZ4 frame"
  | .descriptorChecksum => "checksum of the LZ4 frame descriptor does not match"
  | .dictionary => "LZ4 frame needs a dictionary"
  | .oversizedBlock => "LZ4 block is larger than the frame allows"
  | .blockChecksum => "checksum of an LZ4 block does not match"
  | .malformedBlock => "malformed LZ4 block"
  | .contentSize => "LZ4 frame has another size than it says"
  | .contentChecksum => "checksum of the LZ4 frame does not match"

/-- What a frame says about itself. -/
structure Descriptor where
  /-- Blocks do not refer to earlier blocks. -/
  independentBlocks : Bool
  blockChecksums : Bool
  contentChecksum : Bool
  contentSize : Option Nat
  maxBlockSize : Nat
deriving DecidableEq, Repr

namespace Descriptor

def magic : Bytes := [0x04, 0x22, 0x4D, 0x18]

/-- The first bytes of a frame in the form from before there were descriptors. -/
def legacyMagic : Bytes := [0x02, 0x21, 0x4C, 0x18]

def legacy : Descriptor := ⟨true, false, false, none, 8 * 1024 * 1024⟩

/-- What holds of the frames that are written here: independent blocks of at most 64 KiB, with a
checksum over the whole content. -/
def standard : Descriptor := ⟨true, false, true, none, 64 * 1024⟩

/-- The bytes of the standard descriptor, before its checksum. -/
def standardBytes : Bytes := [0x64, 0x40]

/-- The checksum of a descriptor is one byte out of the middle. -/
def checksum (bytes : Bytes) : UInt8 := UInt8.ofNat ((Checksum.xxh32 bytes).toNat / 256)

/-- Whether a bit of a byte is set. -/
def hasBit (b : UInt8) (bit : Nat) : Bool := b.toNat.testBit bit

/-- The greatest size of a block, by its code. -/
def blockSize? : Nat → Option Nat
  | 4 => some (64 * 1024)
  | 5 => some (256 * 1024)
  | 6 => some (1024 * 1024)
  | 7 => some (4 * 1024 * 1024)
  | _ => none

def need (n : Nat) (bytes : Bytes) : Except FrameFault (Bytes × Bytes) :=
  match Bytes.split? n bytes with
  | some parts => .ok parts
  | none => .error .truncated

/-- What the flags and the block code of a descriptor say, together with the content size that
was read apart. -/
def ofFlags (flags blockCode : UInt8) (contentSize : Option Nat) :
    Except FrameFault Descriptor :=
  if flags.toNat / 64 ≠ 1 then .error .unsupportedVersion
  else if hasBit flags 1 ∨ blockCode.toNat % 16 ≠ 0 ∨ hasBit blockCode 7 then .error .reservedBits
  else
    match blockSize? (blockCode.toNat / 16) with
    | none => .error .badBlockSize
    | some maxBlockSize =>
      .ok ⟨hasBit flags 5, hasBit flags 4, hasBit flags 2, contentSize, maxBlockSize⟩

def read (bytes : Bytes) : Except FrameFault (Descriptor × Bytes) := do
  let (start, rest) ← need 2 bytes
  let flags := start.headD 0
  let blockCode := start.getD 1 0
  let (size, rest) ← need (if hasBit flags 3 then 8 else 0) rest
  let (dictionary, rest) ← need (if hasBit flags 0 then 4 else 0) rest
  let (check, rest) ← need 1 rest
  let contentSize := if hasBit flags 3 then some (LittleEndian.toNat size) else none
  let descriptor ← ofFlags flags blockCode contentSize
  if check.headD 0 ≠ checksum (start ++ size ++ dictionary) then throw .descriptorChecksum
  if hasBit flags 0 then throw .dictionary
  return (descriptor, rest)

end Descriptor

namespace Frame

open Descriptor

/-! ### Room for blocks -/

/-- Linked blocks refer back by less than this many bytes. -/
def window : Nat := 64 * 1024

/-- The buffer that blocks are read into, which holds two blocks and a window. A block that may not
fit behind what was read goes to the front. The window before it stays where it is until as much
has been read again. -/
structure Buffer where
  /-- The bytes from the front on. -/
  filled : Nat
  /-- Where the last block before the one at the front ended. -/
  turnedAt : Option Nat
deriving DecidableEq, Repr

namespace Buffer

def empty : Buffer := ⟨0, none⟩

/-- The buffer when the next block is about to be read. -/
def turn (d : Descriptor) (b : Buffer) : Buffer :=
  if 2 * d.maxBlockSize + window < b.filled + d.maxBlockSize then ⟨0, some b.filled⟩ else b

/-- The greatest size of what a compressed block stands for. A linked block may be larger than
others while there is a window that it must not run into: it has all the room before that. -/
def room (d : Descriptor) (b : Buffer) : Nat :=
  match b.turnedAt with
  | some stop =>
    if !d.independentBlocks && b.filled < window then stop - window else d.maxBlockSize
  | none => d.maxBlockSize

def add (b : Buffer) (size : Nat) : Buffer := { b with filled := b.filled + size }

end Buffer

/-! ### Blocks -/

/-- What comes next in the blocks of a frame. -/
inductive Next where
  /-- A block, and the output with it. -/
  | block (out : Array UInt8) (rest : Bytes)
  /-- The end, by an end mark, an empty block or the end of the data, and the whole output. -/
  | done (out : Array UInt8)

/-- Checks that a word behind some bytes is their checksum. -/
def checkWord (present : Bool) (checked : Bytes) (fault : FrameFault) (bytes : Bytes) :
    Except FrameFault Bytes :=
  if present then do
    let (word, rest) ← need 4 bytes
    if LittleEndian.toWord word ≠ Checksum.xxh32 checked then throw fault
    return rest
  else return bytes

/-- The output after a block with the given stored form. A compressed block must not stand for more
than `room` bytes. -/
def addStored (d : Descriptor) (room : Nat) (compressed : Bool) (stored : Bytes)
    (out : Array UInt8) : Except FrameFault (Array UInt8) :=
  if compressed then
    let size := out.size
    match Block.ofBytes? stored with
    | none => .error .malformedBlock
    | some block =>
      match Block.Output.addBlock? (size + room)
          ⟨out, if d.independentBlocks then size else 0⟩ block with
      | some out => .ok out.bytes
      | none => .error .malformedBlock
  else .ok (stored.foldl Array.push out)

/-- The end of a frame: its size and its checksum must be right. -/
def finish (d : Descriptor) (out : Array UInt8) (rest : Bytes) : Except FrameFault Next := do
  if d.contentSize.any fun size => size ≠ out.size then throw .contentSize
  let _ ← checkWord d.contentChecksum out.toList .contentChecksum rest
  return .done out

/-- What is added to the size of a block that is stored as it is. -/
def storedMark : Nat := 0x80000000

/-- Reads the next block. Its size has a bit that says whether it is stored as it is. Data that
ends before a whole size are taken for complete. -/
def readBlock (d : Descriptor) (room : Nat) (out : Array UInt8) (bytes : Bytes) :
    Except FrameFault Next :=
  match Bytes.split? 4 bytes with
  | none => .ok (.done out)
  | some (word, rest) => do
    let word := LittleEndian.toNat word
    if word = 0 then finish d out rest
    else
      let size := word % storedMark
      if d.maxBlockSize < size then throw .oversizedBlock
      let (stored, rest) ← need size rest
      let rest ← checkWord d.blockChecksums stored .blockChecksum rest
      let before := out.size
      let out ← addStored d room (word < storedMark) stored out
      if out.size = before then return .done out else return .block out rest

/-- Why a frame could not be decompressed. -/
inductive Failure where
  | fault (fault : FrameFault)
  /-- The content is larger than it may be. -/
  | tooLarge
deriving DecidableEq, Repr

/-- Reads blocks until the frame ends or the output is larger than `limit`. Each block takes bytes,
so the number of bytes is fuel enough. -/
def readBlocks (limit : Nat) (d : Descriptor) :
    (fuel : Nat) → Buffer → Array UInt8 → Bytes → Except Failure (Array UInt8)
  | 0, _, out, _ => if limit < out.size then .error .tooLarge else .ok out
  | fuel + 1, buffer, out, bytes =>
    if limit < out.size then .error .tooLarge
    else
      let buffer := buffer.turn d
      let before := out.size
      match readBlock d (buffer.room d) out bytes with
      | .error fault => .error (.fault fault)
      | .ok (.done out) => .ok out
      | .ok (.block out rest) => readBlocks limit d fuel (buffer.add (out.size - before)) out rest

/-- Reads what stands in front of the blocks. No bytes at all, or magic bytes and nothing else, are
a frame without blocks. -/
def readStart (bytes : Bytes) : Except FrameFault (Option (Descriptor × Bytes)) := do
  if bytes = [] then return none
  let (found, rest) ← need 4 bytes
  if found = legacyMagic then return some (legacy, rest)
  if rest = [] then return none
  if found ≠ magic then throw .badMagic
  return some (← Descriptor.read rest)

/-- The content of a frame, if it has at most `limit` bytes. -/
def decode (limit : Nat) (bytes : Bytes) : Except Failure Bytes :=
  match readStart bytes with
  | .error fault => .error (.fault fault)
  | .ok none => .ok []
  | .ok (some (d, rest)) => Array.toList <$> readBlocks limit d (rest.length + 1) .empty #[] rest

/-- The content of a block that is stored as it is or compressed. -/
def decodeStored (compressed : Bool) (stored : Bytes) : Option Bytes :=
  match addStored standard standard.maxBlockSize compressed stored #[] with
  | .ok out => some out.toList
  | .error _ => none

/-- A block with its size in front. It is compressed only if that makes it smaller and gives the
same bytes back, so that nothing hangs on how matches were found. -/
def encodeBlock (bytes : Bytes) : Bytes :=
  let stored := (Matching.propose bytes).toBytes
  if stored.length < bytes.length ∧ decodeStored true stored = some bytes then
    LittleEndian.ofNat 4 stored.length ++ stored
  else LittleEndian.ofNat 4 (storedMark + bytes.length) ++ bytes

def encode (content : Bytes) : Bytes :=
  magic ++ standardBytes ++ [checksum standardBytes] ++
    (chunks standard.maxBlockSize content).flatMap encodeBlock ++
    LittleEndian.ofNat 4 0 ++ LittleEndian.ofWord (Checksum.xxh32 content)

end Frame

end GameSave.Lz4
