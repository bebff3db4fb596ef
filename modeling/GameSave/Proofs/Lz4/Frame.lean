import GameSave.Proofs.Lz4.Format

/-! The frames that are written here, and bytes that no frame begins with. -/

namespace GameSave.Lz4.Frame

open Descriptor

/-! ### Frames that are written here -/

/-- A block that the compressor has tried out is one that gives its bytes back. -/
theorem exists_of_decodeStored {stored bytes : Bytes} (h : decodeStored true stored = some bytes) :
    ∃ block next, Block.ofBytes? stored = some block ∧
      Block.Output.addBlock? standard.maxBlockSize ⟨#[], 0⟩ block = some next ∧
        next.bytes.toList = bytes := by
  have hIndependent : standard.independentBlocks = true := rfl
  unfold decodeStored at h
  simp only [addStored, hIndependent, if_true, List.size_toArray, List.length_nil,
    Nat.zero_add] at h
  cases hBlock : Block.ofBytes? stored with
  | none => simp [hBlock] at h
  | some block =>
      simp only [hBlock] at h
      cases hAdd : Block.Output.addBlock? standard.maxBlockSize ⟨#[], 0⟩ block with
      | none => simp [hAdd] at h
      | some next =>
          simp only [hAdd, Option.some.injEq] at h
          exact ⟨block, next, rfl, hAdd, h⟩

/-- A block may stand behind any output. -/
theorem isBlockOf_encodeBlock {bytes : Bytes} (hMax : bytes.length ≤ standard.maxBlockSize)
    (out : Array UInt8) : IsBlockOf standard out bytes (encodeBlock bytes) := by
  have hNoCheck (size stored : Bytes) :
      size ++ stored = size ++ (stored ++ check standard.blockChecksums stored) :=
    congrArg (size ++ ·) (List.append_nil stored).symm
  unfold encodeBlock
  dsimp only
  split
  · next h =>
    obtain ⟨hShorter, hDecode⟩ := h
    obtain ⟨block, next, hBlock, hAdd, rfl⟩ := exists_of_decodeStored hDecode
    have hBehind := Block.Output.addBlock?_behind out standard.maxBlockSize ⟨#[], 0⟩ block
    rw [hAdd, Option.map_some, Block.Output.behind, Array.append_empty, Nat.add_zero] at hBehind
    have hVisible : visible standard out = ⟨out, out.size⟩ := rfl
    rw [hNoCheck]
    refine .compressed (by omega) hBlock ?_
    rw [hVisible, hBehind, Option.map_some, Array.toArray_toList]
    rfl
  · rw [hNoCheck]
    exact .plain hMax

/-- Parts that are not too long are encoded as blocks in a row. -/
theorem areBlocksOf_encodeBlock {parts : List Bytes} (hParts : ∀ part ∈ parts, 0 < part.length ∧
      part.length ≤ standard.maxBlockSize) (out : Array UInt8) :
    AreBlocksOf standard out parts.flatten (parts.flatMap encodeBlock) := by
  induction parts generalizing out with
  | nil => exact .nil out
  | cons part parts ih =>
      obtain ⟨hPos, hMax⟩ := hParts part List.mem_cons_self
      rw [List.flatten_cons, List.flatMap_cons]
      exact .cons (List.length_pos_iff.mp hPos) (isBlockOf_encodeBlock hMax out)
        (ih (fun p hp => hParts p (List.mem_cons_of_mem _ hp)) _)

/-- Content that is cut into parts and encoded part by part is blocks in a row. -/
theorem areBlocksOf_chunks (content : Bytes) : AreBlocksOf standard #[] content
    ((chunks standard.maxBlockSize content).flatMap encodeBlock) := by
  have hSize : 0 < standard.maxBlockSize := by decide
  have hParts (part : Bytes) (hPart : part ∈ chunks standard.maxBlockSize content) :=
    length_of_mem_chunks hSize hPart
  have hBlocks := areBlocksOf_encodeBlock hParts #[]
  rwa [flatten_chunks hSize content] at hBlocks

/-- What stands in front of the blocks. -/
def descriptorBytes : Bytes := magic ++ standardBytes ++ [checksum standardBytes]

theorem descriptorBytes_eq : descriptorBytes = magic ++ standard.toBytes 4 := rfl

theorem encode_eq (content : Bytes) : encode content =
    descriptorBytes ++ ((chunks standard.maxBlockSize content).flatMap encodeBlock ++
      trailer standard content) := by
  have hCheck : check standard.contentChecksum content =
      LittleEndian.ofWord (Checksum.xxh32 content) := rfl
  simp only [encode, descriptorBytes, trailer, hCheck, List.append_assoc]

/-- What is written is a frame with the content that it was written for. -/
theorem isFrameOf_encode (content : Bytes) : IsFrameOf content (encode content) := by
  rw [encode_eq, descriptorBytes_eq, List.append_assoc]
  exact .intro rfl (fun _ h => nomatch h) (areBlocksOf_chunks content)

/-! ### Bytes that are no frame -/

/-- Bytes that begin as no frame does. -/
structure Foreign (bytes : Bytes) : Prop where
  long : 4 < bytes.length
  magic_ne : bytes.take 4 ≠ magic
  legacyMagic_ne : bytes.take 4 ≠ legacyMagic

/-- What does not begin as a frame has bad magic bytes. -/
theorem Foreign.decode_eq {bytes : Bytes} (h : Foreign bytes) (limit : Nat) :
    decode limit bytes = .error (.fault .badMagic) := by
  have hNe : ¬bytes = [] := by
    rintro rfl
    exact Nat.not_lt_zero _ h.long
  have hRest : ¬bytes.drop 4 = [] := by
    rw [List.drop_eq_nil_iff]
    have hLong := h.long
    omega
  have hFound : need 4 bytes = .ok (bytes.take 4, bytes.drop 4) := by
    have hLong := h.long
    have hTake : (bytes.take 4).length = 4 := by
      rw [List.length_take]
      omega
    have hNeed := need_append (bytes.drop 4) hTake
    rwa [List.take_append_drop] at hNeed
  have hStart : readStart bytes = .error .badMagic := by
    unfold readStart
    rw [if_neg hNe, hFound]
    simp only [bind, Except.bind, h.legacyMagic_ne, hRest, h.magic_ne, ne_eq, not_false_eq_true,
      if_true, if_false]
    rfl
  rw [decode, hStart]

end GameSave.Lz4.Frame
