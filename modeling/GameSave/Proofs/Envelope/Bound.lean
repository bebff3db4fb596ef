import GameSave.Proofs.Envelope
import GameSave.SaveFault

/-! Frames under a bound. Output is never taken back, so a bound changes nothing
but that larger content is refused, whether or not the payload is a frame. The end
of a frame is checked before its content is handed out, also where the content
just fits. -/

namespace GameSave

namespace Lz4.Frame

/-! ### Frames without a bound -/

/-- Reads blocks until the frame ends, however large the output becomes. -/
def readAllBlocks (d : Descriptor) :
    (fuel : Nat) → Buffer → Array UInt8 → Bytes → Except FrameFault (Array UInt8)
  | 0, _, out, _ => .ok out
  | fuel + 1, buffer, out, bytes =>
    let buffer := buffer.turn d
    match readBlock d (buffer.room d) out bytes with
    | .error fault => .error fault
    | .ok (.done last) => .ok last
    | .ok (.block next rest) =>
      readAllBlocks d fuel (buffer.add (next.size - out.size)) next rest

/-- The content of a frame, however large it is. -/
def decodeAll (bytes : Bytes) : Except FrameFault Bytes :=
  match readStart bytes with
  | .error fault => .error fault
  | .ok none => .ok []
  | .ok (some (d, rest)) => Array.toList <$> readAllBlocks d (rest.length + 1) .empty #[] rest

/-! ### Growth -/

variable {d : Descriptor} {room : Nat} {out : Array UInt8} {bytes : Bytes}

theorem size_le_of_addStored {compressed : Bool} {stored : Bytes} {next : Array UInt8}
    (h : addStored d room compressed stored out = .ok next) : out.size ≤ next.size := by
  unfold addStored at h
  cases compressed with
  | false =>
      obtain rfl := Except.ok.inj h
      simp
  | true =>
      simp only [if_true] at h
      split at h
      · cases h
      · split at h
        · next hBlock =>
          obtain rfl := Except.ok.inj h
          exact Block.Output.size_le_of_addBlock? hBlock
        · cases h

theorem finish_eq_done {next : Next} (h : finish d out bytes = .ok next) : next = .done out := by
  unfold finish at h
  dsimp only at h
  split at h
  · cases h
  · obtain ⟨rest, -, hDone⟩ := Except.bind_eq_ok.mp h
    exact (Except.ok.inj hDone).symm

/-- A block makes the output larger. What ends the frame leaves it as large as it was. -/
theorem size_of_readBlock {next : Next} (h : readBlock d room out bytes = .ok next) :
    match next with
    | .block next _ => out.size < next.size
    | .done last => last.size = out.size := by
  unfold readBlock at h
  split at h
  · obtain rfl := Except.ok.inj h
    rfl
  · dsimp only at h
    split at h
    · obtain rfl := finish_eq_done h
      rfl
    · split at h
      · cases h
      · obtain ⟨⟨stored, rest⟩, -, h⟩ := Except.bind_eq_ok.mp h
        obtain ⟨rest, -, h⟩ := Except.bind_eq_ok.mp h
        obtain ⟨added, hAdded, h⟩ := Except.bind_eq_ok.mp h
        have hGrowth := size_le_of_addStored hAdded
        split at h
        · next hSame =>
          obtain rfl := Except.ok.inj h
          exact hSame
        · next hLarger =>
          obtain rfl := Except.ok.inj h
          dsimp only
          omega

theorem size_le_of_readAllBlocks {fuel : Nat} {buffer : Buffer} {last : Array UInt8}
    (h : readAllBlocks d fuel buffer out bytes = .ok last) : out.size ≤ last.size := by
  induction fuel generalizing buffer out bytes with
  | zero =>
      obtain rfl := Except.ok.inj h
      exact Nat.le_refl _
  | succ fuel ih =>
      rw [readAllBlocks] at h
      cases hBlock : readBlock d ((buffer.turn d).room d) out bytes with
      | error fault =>
          rw [hBlock] at h
          cases h
      | ok next =>
          have hSize := size_of_readBlock hBlock
          rw [hBlock] at h
          cases next with
          | done found =>
              obtain rfl := Except.ok.inj h
              exact Nat.le_of_eq hSize.symm
          | block next rest => exact Nat.le_trans (Nat.le_of_lt hSize) (ih h)

/-! ### Frames with a bound -/

/-- The output is looked at before each block, so no block is read behind output that is too
large. -/
theorem readBlocks_of_readAllBlocks {fuel : Nat} {buffer : Buffer} {last : Array UInt8}
    (h : readAllBlocks d fuel buffer out bytes = .ok last) (limit : Nat) :
    readBlocks limit d fuel buffer out bytes =
      if limit < last.size then .error .tooLarge else .ok last := by
  induction fuel generalizing buffer out bytes with
  | zero =>
      obtain rfl := Except.ok.inj h
      rfl
  | succ fuel ih =>
      rw [readBlocks]
      by_cases hFull : limit < out.size
      · have hLast := size_le_of_readAllBlocks h
        rw [if_pos hFull, if_pos (by omega)]
      · rw [if_neg hFull]
        rw [readAllBlocks] at h
        dsimp only
        cases hBlock : readBlock d ((buffer.turn d).room d) out bytes with
        | error fault =>
            rw [hBlock] at h
            cases h
        | ok next =>
            have hSize := size_of_readBlock hBlock
            rw [hBlock] at h
            cases next with
            | done found =>
                obtain rfl := Except.ok.inj h
                exact (if_neg (hSize ▸ hFull)).symm
            | block next rest => exact ih h

/-- A bound may come before a fault, but it hides none. -/
theorem readBlocks_of_readAllBlocks_error {fuel : Nat} {buffer : Buffer} {fault : FrameFault}
    (h : readAllBlocks d fuel buffer out bytes = .error fault) (limit : Nat) :
    readBlocks limit d fuel buffer out bytes = .error .tooLarge ∨
      readBlocks limit d fuel buffer out bytes = .error (.fault fault) := by
  induction fuel generalizing buffer out bytes with
  | zero => cases h
  | succ fuel ih =>
      rw [readBlocks]
      by_cases hFull : limit < out.size
      · rw [if_pos hFull]
        exact .inl rfl
      · rw [if_neg hFull]
        rw [readAllBlocks] at h
        dsimp only
        cases hBlock : readBlock d ((buffer.turn d).room d) out bytes with
        | error found =>
            rw [hBlock] at h
            cases h
            exact .inr rfl
        | ok next =>
            rw [hBlock] at h
            cases next with
            | done last => cases h
            | block next rest => exact ih h

/-- A bound only refuses content that is longer. -/
theorem decode_of_decodeAll {frame content : Bytes} (h : decodeAll frame = .ok content)
    (limit : Nat) : decode limit frame =
      if limit < content.length then .error .tooLarge else .ok content := by
  unfold decodeAll at h
  unfold decode
  cases hStart : readStart frame with
  | error fault =>
      rw [hStart] at h
      cases h
  | ok start =>
      rw [hStart] at h
      cases start with
      | none =>
          obtain rfl := Except.ok.inj h
          rfl
      | some found =>
          obtain ⟨last, hLast, rfl⟩ := Except.map_eq_ok.mp h
          dsimp only
          rw [readBlocks_of_readAllBlocks hLast, Array.length_toList]
          split <;> rfl

/-- A bound may hide a fault behind it, and that is all that it does to a faulty frame. -/
theorem decode_of_decodeAll_error {frame : Bytes} {fault : FrameFault}
    (h : decodeAll frame = .error fault) (limit : Nat) :
    decode limit frame = .error .tooLarge ∨ decode limit frame = .error (.fault fault) := by
  unfold decodeAll at h
  unfold decode
  cases hStart : readStart frame with
  | error found =>
      rw [hStart] at h
      cases h
      exact .inr rfl
  | ok start =>
      rw [hStart] at h
      cases start with
      | none => cases h
      | some found =>
          obtain ⟨d, rest⟩ := found
          dsimp only at h ⊢
          cases hBlocks : readAllBlocks d (rest.length + 1) .empty #[] rest with
          | ok last =>
              rw [hBlocks] at h
              cases h
          | error found =>
              rw [hBlocks] at h
              cases h
              rcases readBlocks_of_readAllBlocks_error hBlocks limit with hLarge | hFault
              · exact .inl (congrArg (Except.map Array.toList) hLarge)
              · exact .inr (congrArg (Except.map Array.toList) hFault)

end Lz4.Frame

namespace Envelope

open Lz4

variable {payload content : Bytes}

/-- Under a bound, a payload gives its content or is too large. -/
theorem decompress_of_decodeAll (h : Frame.decodeAll payload = .ok content) (limit : Nat) :
    decompress payload limit =
      if limit < content.length then .error (.oversizedContent limit) else .ok content := by
  rw [decompress, Frame.decode_of_decodeAll h]
  by_cases hLimit : limit < content.length
  · rw [if_pos hLimit, if_pos hLimit]
  · rw [if_neg hLimit, if_neg hLimit]

theorem decompress_of_decodeAll_error {fault : FrameFault}
    (h : Frame.decodeAll payload = .error fault) (limit : Nat) :
    decompress payload limit = .error (.oversizedContent limit) ∨
      decompress payload limit = .error (.frame fault) := by
  rw [decompress]
  rcases Frame.decode_of_decodeAll_error h limit with hLarge | hFault
  · rw [hLarge]
    exact .inl rfl
  · rw [hFault]
    exact .inr rfl

/-- Content under a bound is the content without one, if it fits. -/
theorem decompress_eq_ok_iff {limit : Nat} : decompress payload limit = .ok content ↔
    Frame.decodeAll payload = .ok content ∧ content.length ≤ limit := by
  cases hAll : Frame.decodeAll payload with
  | error fault =>
      refine iff_of_false (fun hContent => ?_) (fun hBoth => nomatch hBoth.1)
      rcases decompress_of_decodeAll_error hAll limit with hLarge | hFault
      · cases hLarge.symm.trans hContent
      · cases hFault.symm.trans hContent
  | ok found =>
      rw [decompress_of_decodeAll hAll]
      split
      · next hLarge =>
        refine iff_of_false (fun hContent => nomatch hContent) ?_
        rintro ⟨⟨⟩, hFits⟩
        omega
      · next hFits =>
        constructor
        · rintro ⟨⟩
          exact ⟨rfl, Nat.le_of_not_lt hFits⟩
        · rintro ⟨⟨⟩, -⟩
          rfl

/-- Under a header, compressed content is accepted exactly if it has the recorded size. -/
theorem unwrap_eq_ok_iff_of_compressed {header : FileHeader}
    (hFormat : header.formatVersion ≤ FileHeader.currentFormat)
    (hCompressed : header.isCompressed = true)
    (hChecksum : header.checksum = Checksum.xxh32 payload) :
    unwrap (header.encode ++ payload) = .ok content ↔
      Frame.decodeAll payload = .ok content ∧
        content.length = header.uncompressedSize.toNat := by
  have hContent : contentOf header payload =
      decompress payload header.uncompressedSize.toNat := by
    rw [contentOf, hCompressed, if_pos rfl]
  rw [unwrap_encode_append, openPayload_eq, if_neg (UInt32.not_lt.mpr hFormat),
    if_neg (not_not_intro hChecksum.symm), unpack_eq_ok_iff, hContent]
  constructor
  · rintro ⟨hFound, hLength⟩
    exact ⟨(decompress_eq_ok_iff.mp hFound).1, hLength⟩
  · rintro ⟨hAll, hLength⟩
    exact ⟨decompress_eq_ok_iff.mpr ⟨hAll, Nat.le_of_eq hLength⟩, hLength⟩

/-- A smaller bound changes nothing but that content beyond it is taken for damage. What is opened
is what decompresses without any bound to as many bytes as the header says. -/
theorem decompress_under_smaller_bound (payload : Bytes) {limit larger : Nat}
    (hLe : limit ≤ larger) :
    (∀ content, decompress payload larger = .ok content →
      (decompress payload limit).mapError SaveFault.ofEnvelope =
        if content.length ≤ limit then .ok content
        else .error (.corruptContainer (.envelope (.oversizedContent limit)))) ∧
      (∀ fault, decompress payload larger = .error fault →
        ∃ found, decompress payload limit = .error found) ∧
      ∀ header : FileHeader, header.formatVersion ≤ FileHeader.currentFormat →
        header.isCompressed = true → header.checksum = Checksum.xxh32 payload →
        ∀ container, unwrap (header.encode ++ payload) = .ok container ↔
          Frame.decodeAll payload = .ok container ∧
            container.length = header.uncompressedSize.toNat := by
  refine ⟨?_, ?_, ?_⟩
  · intro content hContent
    rw [decompress_of_decodeAll (decompress_eq_ok_iff.mp hContent).1]
    by_cases hFits : content.length ≤ limit
    · rw [if_neg (Nat.not_lt.mpr hFits), if_pos hFits]
      rfl
    · rw [if_pos (Nat.lt_of_not_le hFits), if_neg hFits]
      rfl
  · intro fault hFault
    cases hSmaller : decompress payload limit with
    | error found => exact ⟨found, rfl⟩
    | ok content =>
        obtain ⟨hAll, hFits⟩ := decompress_eq_ok_iff.mp hSmaller
        have hContent := decompress_eq_ok_iff.mpr ⟨hAll, Nat.le_trans hFits hLe⟩
        cases hFault.symm.trans hContent
  · intro header hFormat hCompressed hChecksum container
    exact unwrap_eq_ok_iff_of_compressed hFormat hCompressed hChecksum

/-- A frame of two blocks, of two bytes and of one, that are stored as they are. -/
def twoBlocks : Bytes :=
  Frame.descriptorBytes ++ [2, 0, 0, 0x80, 0x61, 0x62, 1, 0, 0, 0x80, 0x63] ++
    Frame.trailer Descriptor.standard [0x61, 0x62, 0x63]

/-- A bound at the end of the first block, one at the end of the second, a frame without the last
byte of its checksum, and the frame behind a header. -/
theorem decompress_two_blocks :
    let header : FileHeader := ⟨1, 1, 3, Checksum.xxh32 twoBlocks⟩
    decompress twoBlocks 3 = .ok [0x61, 0x62, 0x63] ∧
      (decompress twoBlocks 2).mapError SaveFault.ofEnvelope =
        .error (.corruptContainer (.envelope (.oversizedContent 2))) ∧
      (∃ fault, decompress twoBlocks.dropLast 3 = .error fault) ∧
      (∃ found, decompress twoBlocks.dropLast 2 = .error found) ∧
      unwrap (header.encode ++ twoBlocks) = .ok [0x61, 0x62, 0x63] := by
  have hWhole : decompress twoBlocks 3 = .ok [0x61, 0x62, 0x63] :=
    Except.toOption_eq_some.mp (by decide +kernel)
  have hCut : ∃ fault, decompress twoBlocks.dropLast 3 = .error fault :=
    Except.toOption_eq_none.mp (by decide +kernel)
  obtain ⟨hSmaller, -, hUnwrap⟩ := decompress_under_smaller_bound twoBlocks (show 2 ≤ 3 by decide)
  obtain ⟨-, hFails, -⟩ :=
    decompress_under_smaller_bound twoBlocks.dropLast (show 2 ≤ 3 by decide)
  refine ⟨hWhole, hSmaller _ hWhole, hCut, hCut.elim hFails, ?_⟩
  exact (hUnwrap _ (by decide) (by decide) rfl _).mpr ⟨(decompress_eq_ok_iff.mp hWhole).1, rfl⟩

end Envelope

end GameSave
