import GameSave.Lz4.Frame
import GameSave.Proofs.Bytes
import GameSave.Proofs.Except
import GameSave.Proofs.Lz4.Block

/-! The format of frames. Whoever compresses is free to choose how blocks are cut
and compressed, whether they are linked, and which checksums there are. Every
frame gives its content back, whatever was chosen. -/

namespace GameSave.Lz4

theorem Block.ne_nil_of_ofBytes? {stored : Bytes} {block : Block}
    (h : Block.ofBytes? stored = some block) : stored ≠ [] := by
  rintro rfl
  cases h

/-! ### Descriptors -/

namespace Descriptor

theorem need_append {n : Nat} {front : Bytes} (rest : Bytes) (h : front.length = n) :
    need n (front ++ rest) = .ok (front, rest) := by
  rw [need, Bytes.split?_append rest h]

theorem need_of_lt {n : Nat} {bytes : Bytes} (h : bytes.length < n) :
    need n bytes = .error .truncated := by
  rw [need, Bytes.split?_eq_none h]

/-- The first byte of a descriptor: the version of the format, and a bit for each choice. -/
def flagByte (independent blockChecksums hasSize contentChecksum : Bool) : UInt8 :=
  UInt8.ofNat (64 + 32 * independent.toNat + 16 * blockChecksums.toNat + 8 * hasSize.toNat +
    4 * contentChecksum.toNat)

/-- Each flag has a bit of its own, and the version of the format is one. -/
theorem flagByte_bits (independent blockChecksums hasSize contentChecksum : Bool) :
    let flags := flagByte independent blockChecksums hasSize contentChecksum
    flags.toNat / 64 = 1 ∧ hasBit flags 0 = false ∧ hasBit flags 1 = false ∧
      hasBit flags 2 = contentChecksum ∧ hasBit flags 3 = hasSize ∧
        hasBit flags 4 = blockChecksums ∧ hasBit flags 5 = independent := by
  revert independent blockChecksums hasSize contentChecksum
  decide

/-- The second byte: the code of the greatest size of a block. -/
def blockByte (blockCode : Nat) : UInt8 := UInt8.ofNat (16 * blockCode)

/-- Only four codes stand for a size. -/
theorem blockSize?_cases {blockCode size : Nat} (h : blockSize? blockCode = some size) :
    blockCode ∈ [4, 5, 6, 7] ∧ size ≤ 4 * 1024 * 1024 := by
  unfold blockSize? at h
  split at h <;> cases h <;> decide

/-- The code of the block size stands above four low bits that are zero, and leaves the top bit
free. -/
theorem blockByte_bits {blockCode size : Nat} (h : blockSize? blockCode = some size) :
    (blockByte blockCode).toNat % 16 = 0 ∧ hasBit (blockByte blockCode) 7 = false ∧
      (blockByte blockCode).toNat / 16 = blockCode := by
  have hFour : ∀ code ∈ [4, 5, 6, 7], (blockByte code).toNat % 16 = 0 ∧
      hasBit (blockByte code) 7 = false ∧ (blockByte code).toNat / 16 = code := by decide
  exact hFour blockCode (blockSize?_cases h).1

/-- The size of the content, if the descriptor tells it. -/
def sizeBytes (d : Descriptor) : Bytes := d.contentSize.elim [] (LittleEndian.ofNat 8)

/-- The two bytes that a descriptor begins with. -/
def startBytes (d : Descriptor) (blockCode : Nat) : Bytes :=
  [flagByte d.independentBlocks d.blockChecksums d.contentSize.isSome d.contentChecksum,
    blockByte blockCode]

/-- A descriptor as it is written, with its own checksum behind it. -/
def toBytes (d : Descriptor) (blockCode : Nat) : Bytes :=
  d.startBytes blockCode ++ (d.sizeBytes ++ [checksum (d.startBytes blockCode ++ d.sizeBytes)])

theorem length_sizeBytes (d : Descriptor) :
    d.sizeBytes.length = if d.contentSize.isSome then 8 else 0 := by
  unfold sizeBytes
  cases d.contentSize with
  | none => rfl
  | some size => exact LittleEndian.length_ofNat 8 size

theorem toNat_sizeBytes {d : Descriptor} (h : ∀ size ∈ d.contentSize, size < LittleEndian.span 8) :
    (if d.contentSize.isSome then some (LittleEndian.toNat d.sizeBytes) else none) =
      d.contentSize := by
  unfold sizeBytes
  cases hSize : d.contentSize with
  | none => rfl
  | some size =>
      have hFits : size < LittleEndian.span 8 := h size hSize
      simp only [Option.isSome_some, if_true, Option.elim_some,
        LittleEndian.toNat_ofNat_of_lt hFits]

/-- A descriptor is found again in its two bytes of flags. -/
theorem ofFlags_startBytes {d : Descriptor} {blockCode : Nat}
    (hCode : blockSize? blockCode = some d.maxBlockSize) :
    ofFlags (flagByte d.independentBlocks d.blockChecksums d.contentSize.isSome d.contentChecksum)
      (blockByte blockCode) d.contentSize = .ok d := by
  obtain ⟨hVersion, -, hOne, hTwo, -, hFour, hFive⟩ := flagByte_bits d.independentBlocks
    d.blockChecksums d.contentSize.isSome d.contentChecksum
  obtain ⟨hLow, hHigh, hBlock⟩ := blockByte_bits hCode
  simp [ofFlags, hVersion, hOne, hTwo, hFour, hFive, hLow, hHigh, hBlock, hCode]

/-- A descriptor is read back as it was written. -/
theorem read_toBytes {d : Descriptor} {blockCode : Nat}
    (hCode : blockSize? blockCode = some d.maxBlockSize)
    (hSize : ∀ size ∈ d.contentSize, size < LittleEndian.span 8) (rest : Bytes) :
    Descriptor.read (d.toBytes blockCode ++ rest) = .ok (d, rest) := by
  obtain ⟨-, hZero, -, -, hThree, -, -⟩ := flagByte_bits d.independentBlocks
    d.blockChecksums d.contentSize.isSome d.contentChecksum
  have hStart (behind : Bytes) : need 2 (d.startBytes blockCode ++ behind) =
      .ok (d.startBytes blockCode, behind) := need_append behind rfl
  have hSizeBytes (behind : Bytes) : need (if d.contentSize.isSome then 8 else 0)
      (d.sizeBytes ++ behind) = .ok (d.sizeBytes, behind) :=
    need_append behind d.length_sizeBytes
  have hNothing (behind : Bytes) : need 0 behind = .ok ([], behind) :=
    need_append behind List.length_nil
  have hCheck (b : UInt8) : need 1 ([b] ++ rest) = .ok ([b], rest) := need_append rest rfl
  have hFlags : (d.startBytes blockCode).headD 0 = flagByte d.independentBlocks d.blockChecksums
      d.contentSize.isSome d.contentChecksum := rfl
  have hBlock : (d.startBytes blockCode).getD 1 0 = blockByte blockCode := rfl
  unfold Descriptor.read toBytes
  simp only [List.append_assoc, hStart, bind, Except.bind, hFlags, hBlock, hThree, hSizeBytes,
    hZero, Bool.false_eq_true, if_false, hNothing, hCheck, toNat_sizeBytes hSize,
    ofFlags_startBytes hCode, List.headD_cons, List.append_nil, ne_eq, not_true]
  rfl

end Descriptor

namespace Frame

open Descriptor

/-! ### Checksums -/

/-- A checksum, if one is wanted. -/
def check (wanted : Bool) (bytes : Bytes) : Bytes :=
  if wanted then LittleEndian.ofWord (Checksum.xxh32 bytes) else []

/-- A checksum that was written is right. -/
theorem checkWord_check (wanted : Bool) (bytes rest : Bytes) (fault : FrameFault) :
    checkWord wanted bytes fault (check wanted bytes ++ rest) = .ok rest := by
  cases wanted with
  | false => rfl
  | true =>
      have hWord : need 4 (check true bytes ++ rest) = .ok (check true bytes, rest) :=
        need_append rest (LittleEndian.length_ofWord _)
      have hSame : LittleEndian.toWord (check true bytes) = Checksum.xxh32 bytes :=
        LittleEndian.toWord_ofWord _
      simp only [checkWord, if_true, hWord, bind, Except.bind, hSame, ne_eq, not_true, if_false]
      rfl

/-! ### Room -/

namespace Buffer

/-- Whenever the buffer was turned, more than a block and a window lay before that place. -/
def Roomy (d : Descriptor) (b : Buffer) : Prop :=
  ∀ stop ∈ b.turnedAt, d.maxBlockSize + window ≤ stop

theorem roomy_empty (d : Descriptor) : empty.Roomy d := fun _ h => nomatch h

/-- A roomy buffer is so still after it was turned. -/
theorem Roomy.turn {d : Descriptor} {b : Buffer} (h : b.Roomy d) : (b.turn d).Roomy d := by
  unfold Buffer.turn
  split
  · intro stop hStop
    cases hStop
    omega
  · exact h

theorem Roomy.add {d : Descriptor} {b : Buffer} (h : b.Roomy d) (size : Nat) :
    (b.add size).Roomy d := h

/-- A block always has the room that its frame promises. -/
theorem Roomy.le_room {d : Descriptor} {b : Buffer} (h : b.Roomy d) :
    d.maxBlockSize ≤ b.room d := by
  unfold room
  split
  · next stop hTurned =>
    have hStop := h stop hTurned
    split <;> omega
  · exact Nat.le_refl _

end Buffer

/-! ### Blocks -/

/-- The output as a block sees it. Linked blocks see all of it. -/
def visible (d : Descriptor) (out : Array UInt8) : Block.Output :=
  ⟨out, if d.independentBlocks then out.size else 0⟩

/-- A block that stands for some bytes behind the output so far: as they are, or compressed in any
way. -/
inductive IsBlockOf (d : Descriptor) (out : Array UInt8) (bytes : Bytes) : Bytes → Prop where
  | plain (hMax : bytes.length ≤ d.maxBlockSize) :
      IsBlockOf d out bytes
        (LittleEndian.ofNat 4 (storedMark + bytes.length) ++
          (bytes ++ check d.blockChecksums bytes))
  | compressed {stored : Bytes} {block : Block} (hMax : stored.length ≤ d.maxBlockSize)
      (hBlock : Block.ofBytes? stored = some block)
      (hAdd : (Block.Output.addBlock? (out.size + d.maxBlockSize) (visible d out) block).map
        Block.Output.bytes = some (out ++ bytes.toArray)) :
      IsBlockOf d out bytes
        (LittleEndian.ofNat 4 stored.length ++ (stored ++ check d.blockChecksums stored))

/-- Blocks one behind the other, none of which stands for nothing. -/
inductive AreBlocksOf (d : Descriptor) : Array UInt8 → Bytes → Bytes → Prop where
  | nil (out : Array UInt8) : AreBlocksOf d out [] []
  | cons {out : Array UInt8} {part content block blocks : Bytes} (hPart : part ≠ [])
      (hBlock : IsBlockOf d out part block)
      (hBlocks : AreBlocksOf d (out ++ part.toArray) content blocks) :
      AreBlocksOf d out (part ++ content) (block ++ blocks)

section Blocks

variable {d : Descriptor} {out : Array UInt8} {bytes block : Bytes}

/-- Every block has a word that tells its size and whether it is compressed. Its stored form stands
for the right bytes in all the room that there can be. -/
theorem IsBlockOf.exists_word (h : IsBlockOf d out bytes block) (hNe : bytes ≠ [])
    (hSmall : d.maxBlockSize < storedMark) : ∃ word stored,
    block = LittleEndian.ofNat 4 word ++ (stored ++ check d.blockChecksums stored) ∧
      word < LittleEndian.span 4 ∧ word ≠ 0 ∧ word % storedMark = stored.length ∧
      stored.length ≤ d.maxBlockSize ∧ ∀ room, d.maxBlockSize ≤ room →
        addStored d room (word < storedMark) stored out = .ok (out ++ bytes.toArray) := by
  have hSpan : LittleEndian.span 4 = 2 * storedMark := by decide
  cases h with
  | plain hMax =>
      have hPos := List.length_pos_iff.mpr hNe
      refine ⟨_, bytes, rfl, by omega, by omega, ?_, hMax, fun room _ => ?_⟩
      · rw [Nat.add_mod_left, Nat.mod_eq_of_lt (by omega)]
      · rw [decide_eq_false (by omega)]
        simp [addStored]
  | @compressed stored steps hMax hBlock hAdd =>
      obtain ⟨next, hNext, hBytes⟩ := Option.map_eq_some_iff.mp hAdd
      have hPos := List.length_pos_iff.mpr (Block.ne_nil_of_ofBytes? hBlock)
      refine ⟨_, stored, rfl, by omega, by omega, Nat.mod_eq_of_lt (by omega), hMax,
        fun room hRoom => ?_⟩
      have hAddRoom : Block.Output.addBlock? (out.size + room)
          ⟨out, if d.independentBlocks then out.size else 0⟩ steps = some next :=
        Block.Output.addBlock?_mono (Nat.add_le_add_left hRoom _) hNext
      rw [decide_eq_true (by omega)]
      simp only [addStored, if_true, hBlock, hAddRoom, hBytes]

/-- What is done with a block whose size word is read. -/
theorem readBlock_of_word {word : Nat} (hSpan : word < LittleEndian.span 4) (hNe : word ≠ 0)
    (hSize : word % storedMark ≤ d.maxBlockSize) (room : Nat) (out : Array UInt8)
    (behind : Bytes) :
    readBlock d room out (LittleEndian.ofNat 4 word ++ behind) = (do
      let (stored, rest) ← need (word % storedMark) behind
      let rest ← checkWord d.blockChecksums stored .blockChecksum rest
      let next ← addStored d room (word < storedMark) stored out
      if next.size = out.size then return .done next else return .block next rest) := by
  unfold readBlock
  rw [Bytes.split?_append _ (LittleEndian.length_ofNat 4 word)]
  simp only [LittleEndian.toNat_ofNat_of_lt hSpan, hNe, Nat.not_lt.mpr hSize, if_false]

/-- A block is read back, whatever was chosen for it. -/
theorem IsBlockOf.readBlock_eq (h : IsBlockOf d out bytes block) (hNe : bytes ≠ [])
    (hSmall : d.maxBlockSize < storedMark) {room : Nat} (hRoom : d.maxBlockSize ≤ room)
    (rest : Bytes) :
    readBlock d room out (block ++ rest) = .ok (.block (out ++ bytes.toArray) rest) := by
  obtain ⟨word, stored, rfl, hSpan, hWord, hLength, hMax, hAdd⟩ := h.exists_word hNe hSmall
  have hGrows : ¬(out ++ bytes.toArray).size = out.size := by
    have hPos := List.length_pos_iff.mpr hNe
    simp only [Array.size_append, List.size_toArray]
    omega
  rw [List.append_assoc, readBlock_of_word hSpan hWord (by omega), List.append_assoc,
    need_append _ hLength.symm]
  simp only [bind, Except.bind, checkWord_check, hAdd room hRoom, hGrows, if_false]
  rfl

/-- Every block takes up some bytes. -/
theorem IsBlockOf.length_pos (h : IsBlockOf d out bytes block) : 0 < block.length := by
  cases h <;> simp only [List.length_append, LittleEndian.length_ofNat] <;> omega

end Blocks

/-! ### Whole frames -/

/-- What stands behind the blocks: an end mark, and the checksum of the content if the descriptor
promises it. -/
def trailer (d : Descriptor) (content : Bytes) : Bytes :=
  LittleEndian.ofNat 4 0 ++ check d.contentChecksum content

/-- Nothing behind a trailer is looked at. -/
theorem readBlock_trailer {d : Descriptor} {out : Array UInt8}
    (hSize : ∀ size ∈ d.contentSize, size = out.size) (room : Nat) (more : Bytes) :
    readBlock d room out (trailer d out.toList ++ more) = .ok (.done out) := by
  have hZero : LittleEndian.toNat (LittleEndian.ofNat 4 0) = 0 := rfl
  have hAny : (d.contentSize.any fun size => size ≠ out.size) = false := by
    rw [Option.any_eq_false]
    intro size hMem
    simpa using hSize size hMem
  unfold readBlock trailer
  rw [List.append_assoc, Bytes.split?_append _ (LittleEndian.length_ofNat 4 0)]
  simp only [hZero, if_true, finish, hAny, checkWord_check]
  rfl

/-- All blocks are read back, whatever it is that ends them, unless they hold more than they may. -/
theorem AreBlocksOf.readBlocks_eq {limit : Nat} {d : Descriptor}
    (hSmall : d.maxBlockSize < storedMark) {out : Array UInt8} {content blocks : Bytes}
    (h : AreBlocksOf d out content blocks) {whole tail : Bytes}
    (hWhole : whole = out.toList ++ content)
    (hEnd : ∀ room, readBlock d room whole.toArray tail = .ok (.done whole.toArray)) {fuel : Nat}
    (hFuel : blocks.length < fuel) {buffer : Buffer} (hBuffer : buffer.Roomy d) :
    readBlocks limit d fuel buffer out (blocks ++ tail) =
      if limit < whole.length then .error .tooLarge else .ok whole.toArray := by
  have hLength := congrArg List.length hWhole
  simp only [List.length_append, Array.length_toList] at hLength
  induction h generalizing fuel buffer with
  | nil out =>
      obtain ⟨fuel, rfl⟩ := Nat.exists_eq_succ_of_ne_zero (Nat.ne_of_gt hFuel)
      obtain rfl : whole = out.toList := by simpa using hWhole
      rw [Array.toArray_toList] at hEnd
      rw [List.nil_append, readBlocks]
      simp only [hEnd, Array.toArray_toList, Array.length_toList]
  | @cons out part content block blocks hPart hBlock hBlocks ih =>
      obtain ⟨fuel, rfl⟩ := Nat.exists_eq_succ_of_ne_zero (Nat.ne_of_gt (Nat.zero_lt_of_lt hFuel))
      rw [List.append_assoc, readBlocks]
      by_cases hFull : limit < out.size
      · rw [if_pos hFull, if_pos (by omega)]
      · simp only [if_neg hFull, hBlock.readBlock_eq hPart hSmall hBuffer.turn.le_room]
        have hPos := hBlock.length_pos
        have hSame : whole = (out ++ part.toArray).toList ++ content := by
          rw [hWhole, Array.toList_append, List.append_assoc]
        apply ih hSame ?_ (hBuffer.turn.add _)
        · rw [hSame, List.length_append, Array.length_toList]
        · rw [List.length_append] at hFuel
          omega

/-- A frame with some content: its blocks are small or large, linked or not, each as it is or
compressed in any way, with any of the checksums, and with the size of the content or without. -/
inductive IsFrameOf (content : Bytes) : Bytes → Prop where
  | intro {d : Descriptor} {blockCode : Nat} {blocks : Bytes}
      (hCode : blockSize? blockCode = some d.maxBlockSize)
      (hSize : ∀ size ∈ d.contentSize, size = content.length ∧ size < LittleEndian.span 8)
      (hBlocks : AreBlocksOf d #[] content blocks) :
      IsFrameOf content (magic ++ (d.toBytes blockCode ++ (blocks ++ trailer d content)))

theorem IsFrameOf.take_four_append {content frame : Bytes} (h : IsFrameOf content frame)
    (more : Bytes) : (frame ++ more).take 4 = magic := by
  cases h
  rw [List.append_assoc]
  exact List.take_left' rfl

/-- A frame begins with the magic bytes of frames. -/
theorem IsFrameOf.take_four {content frame : Bytes} (h : IsFrameOf content frame) :
    frame.take 4 = magic := by
  have hTake := h.take_four_append []
  rwa [List.append_nil] at hTake

theorem readStart_of_magic {rest : Bytes} (hRest : rest ≠ []) :
    readStart (magic ++ rest) = (return some (← Descriptor.read rest)) := by
  have hNe : ¬magic ++ rest = [] := by simp [hRest]
  have hLegacy : ¬magic = legacyMagic := by decide
  have hMagic : need 4 (magic ++ rest) = .ok (magic, rest) := need_append rest rfl
  unfold readStart
  rw [if_neg hNe, hMagic]
  simp only [bind, Except.bind, hLegacy, hRest, if_false, ne_eq, not_true]

/-- The start of a frame is read back. -/
theorem readStart_toBytes {d : Descriptor} {blockCode : Nat}
    (hCode : blockSize? blockCode = some d.maxBlockSize)
    (hSize : ∀ size ∈ d.contentSize, size < LittleEndian.span 8) (rest : Bytes) :
    readStart (magic ++ (d.toBytes blockCode ++ rest)) = .ok (some (d, rest)) := by
  rw [readStart_of_magic (by simp [toBytes, startBytes]), read_toBytes hCode hSize]
  rfl

/-- No block is so long that its length could be taken for the mark of a stored one. -/
theorem maxBlockSize_lt {d : Descriptor} {blockCode : Nat}
    (hCode : blockSize? blockCode = some d.maxBlockSize) : d.maxBlockSize < storedMark :=
  Nat.lt_of_le_of_lt (blockSize?_cases hCode).2 (by decide)

/-- Blocks behind a descriptor give their content, if what comes behind them ends the frame. -/
theorem decode_of_areBlocksOf {d : Descriptor} {blockCode : Nat} {content blocks tail : Bytes}
    (hCode : blockSize? blockCode = some d.maxBlockSize)
    (hSize : ∀ size ∈ d.contentSize, size < LittleEndian.span 8)
    (hBlocks : AreBlocksOf d #[] content blocks)
    (hEnd : ∀ room, readBlock d room content.toArray tail = .ok (.done content.toArray))
    (limit : Nat) : decode limit (magic ++ (d.toBytes blockCode ++ (blocks ++ tail))) =
      if limit < content.length then .error .tooLarge else .ok content := by
  have hFuel : blocks.length < (blocks ++ tail).length + 1 := by
    rw [List.length_append]
    omega
  rw [decode, readStart_toBytes hCode hSize]
  dsimp only
  rw [hBlocks.readBlocks_eq (maxBlockSize_lt hCode) (List.nil_append content).symm hEnd hFuel
    (Buffer.roomy_empty d)]
  split <;> rfl

/-- Every frame gives its content back, unless that has more bytes than it may have. What comes
behind the frame does not matter. -/
theorem IsFrameOf.decode_append {content frame : Bytes} (h : IsFrameOf content frame)
    (more : Bytes) (limit : Nat) : decode limit (frame ++ more) =
      if limit < content.length then .error .tooLarge else .ok content := by
  obtain @⟨d, blockCode, blocks, hCode, hSize, hBlocks⟩ := h
  have hEnd (room : Nat) : readBlock d room content.toArray (trailer d content ++ more) =
      .ok (.done content.toArray) := by
    have hSizeOut : ∀ size ∈ d.contentSize, size = content.toArray.size :=
      fun size hMem => (hSize size hMem).1
    have hRead := readBlock_trailer hSizeOut room more
    rwa [List.toList_toArray] at hRead
  simp only [List.append_assoc]
  exact decode_of_areBlocksOf hCode (fun size hMem => (hSize size hMem).2) hBlocks hEnd limit

/-- A frame is decoded to its content if that is not too large. -/
theorem IsFrameOf.decode_eq {content frame : Bytes} (h : IsFrameOf content frame) (limit : Nat) :
    decode limit frame = if limit < content.length then .error .tooLarge else .ok content := by
  have hWhole := h.decode_append [] limit
  rwa [List.append_nil] at hWhole

end Frame

end GameSave.Lz4
