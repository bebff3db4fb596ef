import GameSave.Proofs.Engine.Save

/-! The forms in which a container may be stored. A load sees no difference between
them, and none between the frames that a compressor may choose. -/

namespace GameSave

open Lz4

namespace Envelope

variable {container file : Bytes}

/-- A form in which a container is stored: in an envelope, as it is or as any frame that holds it,
or as such a frame alone. -/
inductive IsStoredFormOf (container : Bytes) : Bytes → Prop where
  | enveloped {compressed : Bool} {file : Bytes} (hFile : IsEnvelopeOf container compressed file) :
      IsStoredFormOf container file
  | bare {frame : Bytes} (hSize : container.length ≤ maxBareFrameSize)
      (hFrame : Frame.IsFrameOf container frame) : IsStoredFormOf container frame

/-- Every form in which a container is stored gives it back. -/
theorem IsStoredFormOf.unwrap_eq (h : IsStoredFormOf container file) :
    unwrap file = .ok container := by
  cases h with
  | enveloped hFile => exact hFile.unwrap_eq
  | bare hSize hFrame => exact unwrap_of_isFrameOf hFrame hSize

end Envelope

namespace Engine

open Envelope

variable {ε : Type} [Delegate ε]

/-- Bytes are wrapped with and without compression if their size fits in a header, and may be
compressed alone if they are not too large. Each of these forms gives the bytes back, whether they
are a container or not, and loads as the others do. -/
theorem load_of_storedForms (container : Bytes) :
    (∀ compressed, container.length < UInt32.size →
      ∃ file, wrap container compressed = .ok file ∧ IsStoredFormOf container file) ∧
    (container.length ≤ maxBareFrameSize → IsStoredFormOf container (compress container)) ∧
    ∀ file, IsStoredFormOf container file → unwrap file = .ok container ∧
      ∀ other, IsStoredFormOf container other →
        ∀ (e : Engine ε) path, e.load file path = e.load other path := by
  refine ⟨fun compressed hSize => ?_, fun hSize => .bare hSize (isFrameOf_compress container),
    fun file hFile => ?_⟩
  · obtain ⟨file, hWrap⟩ : ∃ file, wrap container compressed = .ok file :=
      ⟨_, by rw [wrap, if_pos hSize]⟩
    exact ⟨file, hWrap, .enveloped (isEnvelopeOf_wrap hWrap)⟩
  · refine ⟨hFile.unwrap_eq, fun other hOther e path => ?_⟩
    exact load_eq_of_unwrap_eq (hFile.unwrap_eq.trans hOther.unwrap_eq.symm)

/-- The container of a blank game, behind a header and in a frame of two blocks, the second of
which refers back to the first. -/
theorem load_of_storedForms_linked :
    let container : Bytes := [71, 68, 65, 84, 1, 0, 0, 0, 9, 0, 0, 0, 0, 0, 0, 0, 3, 0, 0, 0, 7, 0,
      0, 0, 0, 4, 0, 0, 0, 0, 0, 223]
    let descriptor : Descriptor := ⟨false, true, false, some 32, 64 * 1024⟩
    let stored : Bytes := [16, 7, 9, 0, 17, 4, 17, 0, 16, 223]
    let frame := Descriptor.magic ++ (descriptor.toBytes 4 ++ (
      (LittleEndian.ofNat 4 (Frame.storedMark + 20) ++
        (container.take 20 ++ Frame.check true (container.take 20)) ++
      (LittleEndian.ofNat 4 10 ++ (stored ++ Frame.check true stored) ++ [])) ++
      Frame.trailer descriptor container))
    let reader : Engine BuiltinDelegate := .standard id .standard
    unwrap frame = .ok container ∧
      ∃ file, wrap container false = .ok file ∧ reader.load frame none = reader.load file none := by
  intro container descriptor stored frame reader
  have hBlock : Block.ofBytes? stored =
      some ⟨[⟨[7], ⟨9, 4⟩⟩, ⟨[4], ⟨17, 5⟩⟩], [223]⟩ := by decide
  have hFirst : Frame.IsBlockOf descriptor #[] (container.take 20) _ := .plain (by decide)
  have hSecond : Frame.IsBlockOf descriptor (#[] ++ (container.take 20).toArray)
      (container.drop 20) (LittleEndian.ofNat 4 10 ++ (stored ++ Frame.check true stored)) :=
    .compressed (by decide) hBlock (by decide)
  have hBlocks := Frame.AreBlocksOf.cons (by decide) hFirst (.cons (by decide) hSecond (.nil _))
  have hFrame : Frame.IsFrameOf container frame := .intro rfl (by decide) hBlocks
  obtain ⟨hWrap, -, hForms⟩ := @load_of_storedForms BuiltinDelegate _ container
  obtain ⟨file, hFile, hForm⟩ := hWrap false (by decide)
  obtain ⟨hUnwrap, hLoad⟩ := hForms frame (.bare (by decide) hFrame)
  exact ⟨hUnwrap, file, hFile, hLoad file hForm reader none⟩

end Engine

end GameSave
