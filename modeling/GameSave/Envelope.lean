import GameSave.Lz4.Frame
import GameSave.Text.Hex
/-!
Envelopes: save files around the bytes of a container.

A file starts with a header of twenty bytes: the four bytes `TGSV`, the version of the header
format, flags, the size of the container, and the checksum of everything after the header, all
words little-endian. After it comes the container, as it is or as an LZ4 frame. A file without
such a header is taken for an LZ4 frame alone.
-/

namespace GameSave

/-- Why a file does not yield the bytes of a container. -/
inductive EnvelopeFault where
  | tooShort (size : Nat)
  /-- The header has a format from the future. -/
  | newerFormat (version : UInt32)
  | checksum (expected found : UInt32)
  /-- The content is larger than it should be. -/
  | oversizedContent (limit : Nat)
  | sizeMismatch (expected found : Nat)
  | frame (fault : Lz4.FrameFault)
deriving DecidableEq, Repr

/-- A container that is too large for the size in a header. -/
structure OversizedContainer where
  size : Nat
deriving DecidableEq, Repr

def OversizedContainer.message (e : OversizedContainer) : String :=
  "container of " ++ e.size.repr ++ " bytes exceeds the 4 GiB file limit"

/-- The words in the header of a file. -/
structure FileHeader where
  formatVersion : UInt32
  flags : UInt32
  uncompressedSize : UInt32
  checksum : UInt32
deriving DecidableEq, Repr

namespace FileHeader

def magic : Bytes := [0x54, 0x47, 0x53, 0x56]

def size : Nat := 20

/-- The version of the header format. It has nothing to do with the version of the engine. -/
def currentFormat : UInt32 := 1

def compressedFlag : UInt32 := 1

def isCompressed (h : FileHeader) : Bool := h.flags &&& compressedFlag != 0

def encode (h : FileHeader) : Bytes :=
  magic ++ LittleEndian.ofWord h.formatVersion ++ LittleEndian.ofWord h.flags ++
    LittleEndian.ofWord h.uncompressedSize ++ LittleEndian.ofWord h.checksum

/-- The header that comes after the magic bytes, and what comes after the header. -/
def read? (bytes : Bytes) : Option (FileHeader × Bytes) := do
  let (formatVersion, rest) ← Bytes.split? 4 bytes
  let (flags, rest) ← Bytes.split? 4 rest
  let (uncompressedSize, rest) ← Bytes.split? 4 rest
  let (checksum, rest) ← Bytes.split? 4 rest
  return (⟨LittleEndian.toWord formatVersion, LittleEndian.toWord flags,
    LittleEndian.toWord uncompressedSize, LittleEndian.toWord checksum⟩, rest)

end FileHeader

def EnvelopeFault.message : EnvelopeFault → String
  | .tooShort size =>
    "save file has magic bytes but is too short (" ++ size.repr ++ " bytes, need at least " ++
      FileHeader.size.repr ++ ")"
  | .newerFormat version =>
    "save file uses header format version " ++ version.toNat.repr ++
      ", but this build only supports up to " ++ FileHeader.currentFormat.toNat.repr
  | .checksum expected found =>
    "checksum mismatch (expected 0x" ++ Text.hex 8 expected.toNat ++ ", got 0x" ++
      Text.hex 8 found.toNat ++ ")"
  | .oversizedContent limit => "decompressed container exceeds " ++ limit.repr ++ " bytes"
  | .sizeMismatch expected found =>
    "container size mismatch (header says " ++ expected.repr ++ ", got " ++ found.repr ++ ")"
  | .frame fault => fault.message

namespace Envelope

/-- The greatest content of a frame without a header, which says nowhere how large it should
be. -/
def maxBareFrameSize : Nat := 256 * 1024 * 1024

def compress (content : Bytes) : Bytes := Lz4.Frame.encode content

/-- The content of a frame, if it has at most `limit` bytes. -/
def decompress (frame : Bytes) (limit : Nat) : Except EnvelopeFault Bytes :=
  match Lz4.Frame.decode limit frame with
  | .ok content => .ok content
  | .error (.fault fault) => .error (.frame fault)
  | .error .tooLarge => .error (.oversizedContent limit)

def wrap (container : Bytes) (compressed : Bool) : Except OversizedContainer Bytes :=
  if container.length < UInt32.size then
    let payload := if compressed then compress container else container
    let header : FileHeader :=
      { formatVersion := FileHeader.currentFormat
        flags := if compressed then FileHeader.compressedFlag else 0
        uncompressedSize := UInt32.ofNat container.length
        checksum := Checksum.xxh32 payload }
    .ok (header.encode ++ payload)
  else .error ⟨container.length⟩

/-- The container behind a header, once the header says where everything is. -/
def openPayload (header : FileHeader) (payload : Bytes) : Except EnvelopeFault Bytes := do
  if FileHeader.currentFormat < header.formatVersion then throw (.newerFormat header.formatVersion)
  let found := Checksum.xxh32 payload
  if found ≠ header.checksum then throw (.checksum header.checksum found)
  let container ←
    if header.isCompressed then decompress payload header.uncompressedSize.toNat
    else pure payload
  if container.length ≠ header.uncompressedSize.toNat then
    throw (.sizeMismatch header.uncompressedSize.toNat container.length)
  return container

def unwrap (file : Bytes) : Except EnvelopeFault Bytes :=
  match Bytes.split? 4 file with
  | some (found, rest) =>
    if found = FileHeader.magic then
      match FileHeader.read? rest with
      | some (header, payload) => openPayload header payload
      | none => .error (.tooShort file.length)
    else decompress file maxBareFrameSize
  | none => decompress file maxBareFrameSize

end Envelope

end GameSave
