import GameSave.Proofs.Container.PrefixFree
import GameSave.Proofs.Envelope

/-! Files that end in the wrong place. A file without a header is a frame, and frames
say too little about where they end: one may stop between two blocks, and anything may
come behind one. Containers, and files with a header that are not compressed, show it. -/

namespace GameSave.Envelope

open Lz4

variable {content frame : Bytes}

/-- What is left of a frame is opened exactly if it is an open frame. -/
theorem unwrap_of_cut_frame_iff (hFrame : Frame.IsFrameOf content frame)
    (hSize : content.length ≤ maxBareFrameSize) {front result : Bytes} (hPrefix : front <+: frame)
    (hCut : front ≠ frame) (hNil : front ≠ []) :
    unwrap front = .ok result ↔ Frame.IsOpenFrameOf result front := by
  rw [unwrap_beginning hFrame hPrefix, decompress_eq_ok_iff_decode,
    hFrame.decode_of_cut_iff ⟨hPrefix, hCut⟩ hNil hSize]

/-- Nothing looks at what stands behind a frame. -/
theorem unwrap_frame_append (hFrame : Frame.IsFrameOf content frame)
    (hSize : content.length ≤ maxBareFrameSize) (more : Bytes) :
    unwrap (frame ++ more) = .ok content := by
  have hBare : (frame ++ more).take 4 ≠ FileHeader.magic := by
    rw [hFrame.take_four_append]
    decide
  rw [unwrap_of_bare hBare, decompress_eq_ok_iff_decode, hFrame.decode_append, if_neg (by omega)]

theorem exists_fault_of_cut_plain {container file front : Bytes}
    (hWrap : wrap container false = .ok file) (hPrefix : front <+: file) (hCut : front ≠ file)
    (hNil : front ≠ []) : ∃ fault, unwrap front = .error fault := by
  rcases (isEnvelopeOf_wrap hWrap).unwrap_of_cut hPrefix hCut with
    hFault | ⟨hNothing, -⟩ | ⟨hCompressed, -⟩
  · exact hFault
  · exact absurd hNothing hNil
  · cases hCompressed

/-- What is left of a frame without a header is opened exactly if it is an open frame, as a
beginning of the content, and a frame with more behind it is opened as if nothing were there. This
holds of the program's own frames and of any others. Nothing like it happens to a container, or to
a file with a header that is not compressed. -/
theorem unwrap_of_misended_frame (hSize : content.length ≤ maxBareFrameSize) :
    Frame.IsFrameOf content (compress content) ∧
    (∀ frame, Frame.IsFrameOf content frame →
      (∀ front, front <+: frame → front ≠ frame → front ≠ [] →
        ∀ result, unwrap front = .ok result ↔ Frame.IsOpenFrameOf result front) ∧
      (∀ front result, front <+: frame → unwrap front = .ok result → result <+: content) ∧
      ∀ more, unwrap (frame ++ more) = .ok content) ∧
    (∀ (c : Container) bytes front, c.encode = .ok bytes → front <+: bytes → front ≠ bytes →
      ∃ fault, Container.decode front = .error fault) ∧
    (∀ (c : Container) bytes more, Container.decode bytes = .ok c → more ≠ [] →
      Container.decode (bytes ++ more) = .error .trailingBytes) ∧
    ∀ container file front, wrap container false = .ok file → front <+: file → front ≠ file →
      front ≠ [] → ∃ fault, unwrap front = .error fault := by
  refine ⟨isFrameOf_compress content, fun frame hFrame => ⟨?_, ?_, ?_⟩, ?_, ?_, ?_⟩
  · exact fun front hPrefix hCut hNil result =>
      unwrap_of_cut_frame_iff hFrame hSize hPrefix hCut hNil
  · exact fun front result hPrefix hOk => prefix_of_unwrap hFrame hPrefix hOk
  · exact unwrap_frame_append hFrame hSize
  · exact fun c bytes front hEncode hPrefix hCut => Container.decode_of_cut hEncode hPrefix hCut
  · exact fun c bytes more hDecode hMore => Container.decode_append hDecode hMore
  · exact fun container file front hWrap hPrefix hCut hNil =>
      exists_fault_of_cut_plain hWrap hPrefix hCut hNil

/-- The frame of one byte, cut off behind its magic bytes, cut off behind its block, and with a byte
behind it. -/
theorem unwrap_of_misended_frame_byte :
    let content : Bytes := [0x61]
    let frame := compress content
    content.length ≤ maxBareFrameSize ∧
      unwrap (frame.take 4) = .ok [] ∧ Frame.IsOpenFrameOf content (frame.take 12) ∧
      unwrap (frame ++ [0]) = .ok content := by
  intro content frame
  have hSize : content.length ≤ maxBareFrameSize := by decide
  obtain ⟨hFrame, hFrames, -⟩ := unwrap_of_misended_frame hSize
  obtain ⟨hCut, -, hMore⟩ := hFrames frame hFrame
  have hBlock : unwrap (frame.take 12) = .ok content :=
    Except.toOption_eq_some.mp (by decide +kernel)
  refine ⟨hSize, ?_, ?_, hMore [0]⟩
  · exact (hCut _ (List.take_prefix 4 frame) (by decide +kernel) (by decide +kernel) _).mpr .magic
  · exact (hCut _ (List.take_prefix 12 frame) (by decide +kernel) (by decide +kernel) _).mp hBlock

/-- A frame without its end, and one with a byte behind it, are opened. -/
theorem unwrap_of_frame_without_end :
    let frame := compress [0x61]
    frame.take 12 <+: frame ∧ frame.take 12 ≠ frame ∧ unwrap (frame.take 12) = .ok [0x61] ∧
      frame.take 4 ≠ [] ∧ unwrap (frame.take 4) = .ok [] ∧ unwrap (frame ++ [0]) = .ok [0x61] := by
  intro frame
  refine ⟨List.take_prefix 12 frame, by decide +kernel, ?_, by decide +kernel, ?_, ?_⟩
  · exact Except.toOption_eq_some.mp (by decide +kernel)
  · exact Except.toOption_eq_some.mp (by decide +kernel)
  · exact Except.toOption_eq_some.mp (by decide +kernel)

end GameSave.Envelope
