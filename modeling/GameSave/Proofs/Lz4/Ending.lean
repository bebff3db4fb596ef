import GameSave.Proofs.Lz4.Format

/-! Frames that end too early. The end of the data counts as the end of the frame
wherever the size of a block is looked for. There the checksum of the content is
not looked for, nor is its size. Anywhere else the end of the data is a fault. -/

namespace GameSave.Lz4

namespace Descriptor

theorem need_eq_ok_iff {n : Nat} {bytes front rest : Bytes} :
    need n bytes = .ok (front, rest) ↔ bytes = front ++ rest ∧ front.length = n := by
  rw [← Bytes.split?_eq_some_iff, need]
  cases Bytes.split? n bytes <;> simp

/-- Bytes that are there are the same whatever comes behind them. -/
theorem need_append_of_ok {n : Nat} {bytes front rest : Bytes}
    (h : need n bytes = .ok (front, rest)) (more : Bytes) :
    need n (bytes ++ more) = .ok (front, rest ++ more) := by
  obtain ⟨rfl, hLength⟩ := need_eq_ok_iff.mp h
  rw [List.append_assoc, need_append _ hLength]

/-- A descriptor shows where it ends. -/
theorem read_append_of_ok {bytes rest : Bytes} {d : Descriptor}
    (h : Descriptor.read bytes = .ok (d, rest)) (more : Bytes) :
    Descriptor.read (bytes ++ more) = .ok (d, rest ++ more) := by
  unfold Descriptor.read at h ⊢
  obtain ⟨⟨start, behind⟩, hStart, h⟩ := Except.bind_eq_ok.mp h
  obtain ⟨⟨size, behind⟩, hSize, h⟩ := Except.bind_eq_ok.mp h
  obtain ⟨⟨dictionary, behind⟩, hDictionary, h⟩ := Except.bind_eq_ok.mp h
  obtain ⟨⟨check, behind⟩, hCheck, h⟩ := Except.bind_eq_ok.mp h
  obtain ⟨descriptor, hFlags, h⟩ := Except.bind_eq_ok.mp h
  refine Except.bind_eq_ok.mpr ⟨_, need_append_of_ok hStart more, Except.bind_eq_ok.mpr
    ⟨_, need_append_of_ok hSize more, Except.bind_eq_ok.mpr ⟨_, need_append_of_ok hDictionary more,
      Except.bind_eq_ok.mpr ⟨_, need_append_of_ok hCheck more, Except.bind_eq_ok.mpr
        ⟨descriptor, hFlags, ?_⟩⟩⟩⟩⟩
  dsimp only at h ⊢
  split at h
  · cases h
  · next hSame =>
    rw [if_neg hSame]
    split at h
    · cases h
    · next hNone =>
      rw [if_neg hNone]
      cases h
      rfl

/-- A descriptor that is cut off is not read. -/
theorem exists_fault_of_read_cut {d : Descriptor} {blockCode : Nat}
    (hCode : blockSize? blockCode = some d.maxBlockSize)
    (hSize : ∀ size ∈ d.contentSize, size < LittleEndian.span 8) {front : Bytes}
    (hCut : front.IsCutOf (d.toBytes blockCode)) :
    ∃ fault, Descriptor.read front = .error fault := by
  cases hRead : Descriptor.read front with
  | error fault => exact ⟨fault, rfl⟩
  | ok found =>
      obtain ⟨⟨more, hMore⟩, hNe⟩ := hCut
      have hWhole := read_toBytes hCode hSize []
      rw [List.append_nil, ← hMore, read_append_of_ok hRead more] at hWhole
      have hNothing : found.2 ++ more = [] := congrArg Prod.snd (Except.ok.inj hWhole)
      rw [(List.append_eq_nil_iff.mp hNothing).2, List.append_nil] at hMore
      exact absurd hMore hNe

end Descriptor

namespace Frame

open Descriptor

/-! ### Beginnings of frames -/

/-- Less than the magic bytes, but not nothing, is a truncated frame. -/
theorem readStart_of_length_lt {front : Bytes} (h : front.length < 4) (hNe : front ≠ []) :
    readStart front = .error .truncated := by
  unfold readStart
  rw [if_neg hNe, need_of_lt h]
  rfl

/-- A frame that ends before its first block is refused, unless it has nothing but the magic
bytes. -/
theorem exists_fault_of_readStart_cut {d : Descriptor} {blockCode : Nat}
    (hCode : blockSize? blockCode = some d.maxBlockSize)
    (hSize : ∀ size ∈ d.contentSize, size < LittleEndian.span 8) {front : Bytes}
    (hCut : front.IsCutOf (magic ++ d.toBytes blockCode)) (hNil : front ≠ [])
    (hMagic : front ≠ magic) : ∃ fault, readStart front = .error fault := by
  rcases hCut.of_append with hShort | ⟨rest, rfl, hRest⟩
  · exact ⟨_, readStart_of_length_lt hShort.length_lt hNil⟩
  · have hRestNil : rest ≠ [] := by
      rintro rfl
      exact hMagic (List.append_nil _)
    obtain ⟨fault, hFault⟩ := exists_fault_of_read_cut hCode hSize hRest
    rw [readStart_of_magic hRestNil, hFault]
    exact ⟨fault, rfl⟩

/-! ### Beginnings of blocks -/

section Blocks

variable {d : Descriptor} {room : Nat} {out : Array UInt8} {front : Bytes}

/-- Without a whole word there is no further block, and that is not a fault. -/
theorem readBlock_of_length_lt (h : front.length < 4) :
    readBlock d room out front = .ok (.done out) := by
  unfold readBlock
  rw [Bytes.split?_eq_none h]

/-- A checksum that is cut off is missed. -/
theorem checkWord_of_cut {wanted : Bool} {bytes : Bytes} (h : front.IsCutOf (check wanted bytes))
    (checked : Bytes) (fault : FrameFault) :
    checkWord wanted checked fault front = .error .truncated := by
  cases wanted with
  | false => exact absurd (List.prefix_nil.mp h.1) h.2
  | true =>
      have hShort : front.length < 4 := h.length_lt
      rw [checkWord, if_pos rfl, need_of_lt hShort]
      rfl

/-- A block that is cut off behind its size is refused. -/
theorem IsBlockOf.readBlock_of_cut {bytes block : Bytes} (hBlock : IsBlockOf d out bytes block)
    (hNe : bytes ≠ []) (hSmall : d.maxBlockSize < storedMark) (hCut : front.IsCutOf block)
    (hLong : 4 ≤ front.length) : readBlock d room out front = .error .truncated := by
  obtain ⟨word, stored, rfl, hSpan, hWord, hLength, hMax, -⟩ := hBlock.exists_word hNe hSmall
  rcases hCut.of_append with hSize | ⟨behind, rfl, hBehind⟩
  · have hShort := hSize.length_lt
    rw [LittleEndian.length_ofNat] at hShort
    omega
  · rw [readBlock_of_word hSpan hWord (by omega)]
    rcases hBehind.of_append with hStored | ⟨rest, rfl, hCheck⟩
    · rw [need_of_lt (hLength ▸ hStored.length_lt)]
      rfl
    · rw [need_append _ hLength.symm]
      simp only [bind, Except.bind, checkWord_of_cut hCheck]

/-- A trailer that is cut off behind the end mark is refused. -/
theorem exists_fault_of_trailer_cut {content : Bytes} (hCut : front.IsCutOf (trailer d content))
    (hLong : 4 ≤ front.length) : ∃ fault, readBlock d room out front = .error fault := by
  rcases hCut.of_append with hMark | ⟨behind, rfl, hCheck⟩
  · have hShort := hMark.length_lt
    rw [LittleEndian.length_ofNat] at hShort
    omega
  · have hZero : LittleEndian.toNat (LittleEndian.ofNat 4 0) = 0 := rfl
    unfold readBlock
    rw [Bytes.split?_append _ (LittleEndian.length_ofNat 4 0)]
    simp only [hZero, if_true, finish, checkWord_of_cut hCheck]
    split
    · exact ⟨_, rfl⟩
    · exact ⟨_, rfl⟩

end Blocks

/-! ### Runs of blocks that are cut off -/

section Runs

variable {d : Descriptor} {limit fuel : Nat} {buffer : Buffer} {out result : Array UInt8}
  {content front : Bytes}

/-- A run goes as its first step does: into a fault, to an end, or on behind a block. -/
theorem readBlocks_succ_eq_ok {bytes : Bytes}
    (h : readBlocks limit d (fuel + 1) buffer out bytes = .ok result) :
    readBlock d ((buffer.turn d).room d) out bytes = .ok (.done result) ∨
      ∃ next rest, readBlock d ((buffer.turn d).room d) out bytes = .ok (.block next rest) ∧
        readBlocks limit d fuel ((buffer.turn d).add (next.size - out.size)) next rest =
          .ok result := by
  rw [readBlocks] at h
  dsimp only at h
  split at h
  · cases h
  · cases hBlock : readBlock d ((buffer.turn d).room d) out bytes with
    | error fault => simp [hBlock] at h
    | ok step =>
        rw [hBlock] at h
        cases step with
        | done last =>
            obtain rfl := Except.ok.inj h
            exact .inl rfl
        | block next rest => exact .inr ⟨next, rest, rfl, h⟩

/-- A fault in the next block is one of the frame. -/
theorem readBlocks_ne_ok_of_fault {bytes : Bytes} {fault : FrameFault}
    (hFault : readBlock d ((buffer.turn d).room d) out bytes = .error fault) :
    readBlocks limit d (fuel + 1) buffer out bytes ≠ .ok result := by
  intro h
  rcases readBlocks_succ_eq_ok h with hDone | ⟨next, rest, hNext, -⟩
  · cases hFault.symm.trans hDone
  · cases hFault.symm.trans hNext

/-- The output is that of whole blocks at the front, which hold a beginning of the content. Behind
them is less than the size of a block. -/
def StopsBetween (d : Descriptor) (out : Array UInt8) (content front : Bytes)
    (result : Array UInt8) : Prop :=
  ∃ part kept few, AreBlocksOf d out part kept ∧ part <+: content ∧ front = kept ++ few ∧
    few.length < 4 ∧ result.toList = out.toList ++ part

theorem stopsBetween_of_length_lt (hShort : front.length < 4)
    (h : readBlocks limit d (fuel + 1) buffer out front = .ok result) :
    StopsBetween d out content front result := by
  have hSame : result = out := by
    rcases readBlocks_succ_eq_ok h with hDone | ⟨next, rest, hNext, -⟩
    · rw [readBlock_of_length_lt hShort] at hDone
      exact (Next.done.inj (Except.ok.inj hDone)).symm
    · rw [readBlock_of_length_lt hShort] at hNext
      cases hNext
  rw [hSame]
  exact ⟨[], [], front, .nil _, List.nil_prefix, rfl, hShort, (List.append_nil _).symm⟩

/-- Blocks in front put off the place where a frame stops, and no more. -/
theorem StopsBetween.cons {part block : Bytes} (hPart : part ≠ [])
    (hBlock : IsBlockOf d out part block)
    (h : StopsBetween d (out ++ part.toArray) content front result) :
    StopsBetween d out (part ++ content) (block ++ front) result := by
  obtain ⟨later, kept, few, hKept, hLater, rfl, hFew, hResult⟩ := h
  refine ⟨part ++ later, block ++ kept, few, .cons hPart hBlock hKept, ?_, ?_, hFew, ?_⟩
  · exact (List.prefix_append_right_inj part).mpr hLater
  · rw [List.append_assoc]
  · rw [hResult, Array.toList_append, List.append_assoc]

/-- Blocks that are cut off are refused, unless the cut falls between two of them or into a size. -/
theorem AreBlocksOf.stopsBetween_of_cut (hSmall : d.maxBlockSize < storedMark) {blocks : Bytes}
    (hBlocks : AreBlocksOf d out content blocks) {whole : Bytes}
    (hCut : front.IsCutOf (blocks ++ trailer d whole)) (hFuel : front.length < fuel)
    (hBuffer : buffer.Roomy d) (h : readBlocks limit d fuel buffer out front = .ok result) :
    StopsBetween d out content front result := by
  induction hBlocks generalizing front fuel buffer with
  | nil out =>
      obtain ⟨fuel, rfl⟩ := Nat.exists_eq_succ_of_ne_zero (Nat.ne_of_gt (Nat.zero_lt_of_lt hFuel))
      by_cases hShort : front.length < 4
      · exact stopsBetween_of_length_lt hShort h
      · obtain ⟨fault, hFault⟩ := exists_fault_of_trailer_cut hCut (Nat.le_of_not_lt hShort)
        exact absurd h (readBlocks_ne_ok_of_fault hFault)
  | @cons out part content block blocks hPart hBlock hBlocks ih =>
      obtain ⟨fuel, rfl⟩ := Nat.exists_eq_succ_of_ne_zero (Nat.ne_of_gt (Nat.zero_lt_of_lt hFuel))
      by_cases hShort : front.length < 4
      · exact stopsBetween_of_length_lt hShort h
      · rw [List.append_assoc] at hCut
        rcases hCut.of_append with hInside | ⟨behind, rfl, hBehind⟩
        · exact absurd h (readBlocks_ne_ok_of_fault
            (hBlock.readBlock_of_cut hPart hSmall hInside (Nat.le_of_not_lt hShort)))
        · have hRead := hBlock.readBlock_eq hPart hSmall hBuffer.turn.le_room behind
          rcases readBlocks_succ_eq_ok h with hDone | ⟨next, rest, hNext, hLater⟩
          · cases hRead.symm.trans hDone
          · cases hRead.symm.trans hNext
            have hPos := hBlock.length_pos
            rw [List.length_append] at hFuel
            exact .cons hPart hBlock (ih hBehind (by omega) (hBuffer.turn.add _) hLater)

end Runs

/-! ### Frames that are cut off -/

/-- A frame that ends too early and is still read. Either it ends behind the magic bytes, or where
the size of a block is looked for and at most the beginning of one is found. -/
inductive IsOpenFrameOf : Bytes → Bytes → Prop where
  | magic : IsOpenFrameOf [] magic
  | blocks {d : Descriptor} {blockCode : Nat} {content blocks few : Bytes}
      (hCode : blockSize? blockCode = some d.maxBlockSize)
      (hSize : ∀ size ∈ d.contentSize, size < LittleEndian.span 8)
      (hBlocks : AreBlocksOf d #[] content blocks) (hFew : few.length < 4) :
      IsOpenFrameOf content (Descriptor.magic ++ (d.toBytes blockCode ++ (blocks ++ few)))

variable {content frame front result : Bytes} {limit : Nat}

/-- An open frame is decoded to its content if that is not too large. -/
theorem IsOpenFrameOf.decode_eq (h : IsOpenFrameOf content front) (limit : Nat) :
    decode limit front = if limit < content.length then .error .tooLarge else .ok content := by
  cases h with
  | magic => rfl
  | blocks hCode hSize hBlocks hFew =>
      exact decode_of_areBlocksOf hCode hSize hBlocks (fun _ => readBlock_of_length_lt hFew) limit

/-- A frame that is cut off is refused, unless what is left is an open frame. That holds a beginning
of the content. -/
theorem IsFrameOf.isOpenFrameOf_of_cut (h : IsFrameOf content frame) (hCut : front.IsCutOf frame)
    (hNil : front ≠ []) (hDecode : decode limit front = .ok result) :
    IsOpenFrameOf result front ∧ result <+: content := by
  obtain @⟨d, blockCode, blocks, hCode, hSize, hBlocks⟩ := h
  have hSizeFits (size : Nat) (hMem : size ∈ d.contentSize) := (hSize size hMem).2
  by_cases hMagic : front = magic
  · subst hMagic
    obtain rfl := Except.ok.inj hDecode
    exact ⟨.magic, List.nil_prefix⟩
  · rw [← List.append_assoc] at hCut
    rcases hCut.of_append with hStart | ⟨behind, rfl, hBehind⟩
    · obtain ⟨fault, hFault⟩ := exists_fault_of_readStart_cut hCode hSizeFits hStart hNil hMagic
      rw [decode, hFault] at hDecode
      cases hDecode
    · rw [List.append_assoc, decode, readStart_toBytes hCode hSizeFits] at hDecode
      obtain ⟨out, hOut, rfl⟩ := Except.map_eq_ok.mp hDecode
      obtain ⟨part, kept, few, hKept, hPart, rfl, hFew, hResult⟩ :=
        hBlocks.stopsBetween_of_cut (maxBlockSize_lt hCode) hBehind (Nat.lt_succ_self _)
          (Buffer.roomy_empty d) hOut
      obtain rfl : out.toList = part := hResult
      rw [List.append_assoc]
      exact ⟨.blocks hCode hSizeFits hKept hFew, hPart⟩

/-- Less than a frame is read exactly if it is an open frame. -/
theorem IsFrameOf.decode_of_cut_iff (h : IsFrameOf content frame) (hCut : front.IsCutOf frame)
    (hNil : front ≠ []) (hLimit : content.length ≤ limit) :
    decode limit front = .ok result ↔ IsOpenFrameOf result front := by
  constructor
  · exact fun hDecode => (h.isOpenFrameOf_of_cut hCut hNil hDecode).1
  · intro hOpen
    -- that the result fits is known only once it is seen to be a beginning of the content
    have hAny := hOpen.decode_eq result.length
    rw [if_neg (Nat.lt_irrefl _)] at hAny
    have hLength := (h.isOpenFrameOf_of_cut hCut hNil hAny).2.length_le
    rw [hOpen.decode_eq, if_neg (by omega)]

/-- What a beginning of a frame gives, if it gives anything, is a beginning of the content. -/
theorem IsFrameOf.prefix_of_decode (h : IsFrameOf content frame) (hPrefix : front <+: frame)
    (hDecode : decode limit front = .ok result) : result <+: content := by
  by_cases hNil : front = []
  · subst hNil
    obtain rfl := Except.ok.inj hDecode
    exact List.nil_prefix
  · by_cases hWhole : front = frame
    · rw [hWhole, h.decode_eq] at hDecode
      split at hDecode
      · cases hDecode
      · exact Except.ok.inj hDecode ▸ List.prefix_refl _
    · exact (h.isOpenFrameOf_of_cut ⟨hPrefix, hWhole⟩ hNil hDecode).2

end Frame

end GameSave.Lz4
