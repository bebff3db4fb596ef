import GameSave.Envelope
import GameSave.Proofs.Checksum
import GameSave.Proofs.Lz4.Ending
import GameSave.Proofs.Lz4.Frame

/-! Envelopes give their container back. If one byte of an envelope changes, it
gives the same container or is refused, but for a flag: without it a frame passes
for a container, if it happens to have the right size. -/

namespace GameSave

open Lz4 Bytes

namespace Envelope

/-! ### Frames -/

/-- A frame gives back its content unless that is more than is allowed. -/
theorem decompress_of_isFrameOf {content frame : Bytes} (h : Frame.IsFrameOf content frame)
    (limit : Nat) : decompress frame limit =
      if limit < content.length then .error (.oversizedContent limit) else .ok content := by
  rw [decompress, h.decode_eq]
  by_cases hLimit : limit < content.length
  · rw [if_pos hLimit, if_pos hLimit]
  · rw [if_neg hLimit, if_neg hLimit]

/-- The program itself makes one of the frames that there may be. -/
theorem isFrameOf_compress (content : Bytes) : Frame.IsFrameOf content (compress content) :=
  Frame.isFrameOf_encode content

theorem decompress_eq_ok_iff_decode {frame content : Bytes} {limit : Nat} :
    decompress frame limit = .ok content ↔ Frame.decode limit frame = .ok content := by
  unfold decompress
  split <;> simp_all

/-- What is left of a frame gives a beginning of the content at most. -/
theorem prefix_of_decompress {content frame front result : Bytes}
    (hFrame : Frame.IsFrameOf content frame) (hPrefix : front <+: frame) {limit : Nat}
    (h : decompress front limit = .ok result) : result <+: content :=
  hFrame.prefix_of_decode hPrefix (decompress_eq_ok_iff_decode.mp h)

/-- What does not begin as a frame is refused at once. -/
theorem decompress_of_foreign {bytes : Bytes} (h : Frame.Foreign bytes) (limit : Nat) :
    decompress bytes limit = .error (.frame .badMagic) := by
  rw [decompress, h.decode_eq]

/-! ### Headers -/

/-- What a payload holds according to its header. -/
def contentOf (header : FileHeader) (payload : Bytes) : Except EnvelopeFault Bytes :=
  if header.isCompressed then decompress payload header.uncompressedSize.toNat else .ok payload

/-- The container behind a header, once format and checksum are found to be right. -/
def unpack (header : FileHeader) (payload : Bytes) : Except EnvelopeFault Bytes := do
  let container ← contentOf header payload
  if container.length ≠ header.uncompressedSize.toNat then
    throw (.sizeMismatch header.uncompressedSize.toNat container.length)
  return container

/-- A payload is opened after two checks, of the format and of the checksum, in this order. -/
theorem openPayload_eq (header : FileHeader) (payload : Bytes) : openPayload header payload =
    if FileHeader.currentFormat < header.formatVersion then
      .error (.newerFormat header.formatVersion)
    else if Checksum.xxh32 payload ≠ header.checksum then
      .error (.checksum header.checksum (Checksum.xxh32 payload))
    else unpack header payload := by
  unfold openPayload
  by_cases hFormat : FileHeader.currentFormat < header.formatVersion
  · rw [if_pos hFormat, if_pos hFormat]
    rfl
  · rw [if_neg hFormat, if_neg hFormat]
    by_cases hChecksum : Checksum.xxh32 payload ≠ header.checksum
    · rw [if_pos hChecksum]
      simp only [if_pos hChecksum]
      rfl
    · rw [if_neg hChecksum]
      simp only [if_neg hChecksum, unpack, contentOf]
      cases header.isCompressed <;> rfl

theorem split?_magic (rest : Bytes) :
    split? 4 (FileHeader.magic ++ rest) = some (FileHeader.magic, rest) :=
  split?_append rest rfl

/-- Behind the magic bytes and a header, the payload is opened as the header says. -/
theorem unwrap_of_read? {rest payload : Bytes} {header : FileHeader}
    (h : FileHeader.read? rest = some (header, payload)) :
    unwrap (FileHeader.magic ++ rest) = openPayload header payload := by
  simp only [unwrap, split?_magic, if_true, h]

/-- Behind the magic bytes there has to be a whole header. -/
theorem unwrap_of_read?_eq_none {rest : Bytes} (h : FileHeader.read? rest = none) :
    unwrap (FileHeader.magic ++ rest) = .error (.tooShort (FileHeader.magic ++ rest).length) := by
  simp only [unwrap, split?_magic, if_true, h]

/-- The words of a header, behind its magic bytes. -/
def words (h : FileHeader) : Bytes :=
  LittleEndian.ofWord h.formatVersion ++ (LittleEndian.ofWord h.flags ++
    (LittleEndian.ofWord h.uncompressedSize ++ LittleEndian.ofWord h.checksum))

theorem length_words (header : FileHeader) : (words header).length = 16 := by
  simp [words]

theorem encode_eq (header : FileHeader) : header.encode = FileHeader.magic ++ words header := by
  simp only [FileHeader.encode, words, List.append_assoc]

/-- The words of any header are read back. -/
theorem read?_words (header : FileHeader) (payload : Bytes) :
    FileHeader.read? (words header ++ payload) = some (header, payload) := by
  simp [FileHeader.read?, words, bind, Option.bind, pure]

theorem exists_ofWord (n : Nat) {bytes : Bytes} (h : bytes.length = 4 + n) :
    ∃ w rest, bytes = LittleEndian.ofWord w ++ rest ∧ rest.length = n := by
  have hTake : (bytes.take 4).length = 4 := by
    rw [List.length_take]
    omega
  refine ⟨LittleEndian.toWord (bytes.take 4), bytes.drop 4, ?_, ?_⟩
  · have hWord : LittleEndian.ofWord (LittleEndian.toWord (bytes.take 4)) = bytes.take 4 := by
      apply LittleEndian.eq_of_toWord_eq (LittleEndian.length_ofWord _) hTake
      rw [LittleEndian.toWord_ofWord]
    rw [hWord, List.take_append_drop]
  · rw [List.length_drop]
    omega

/-- All bytes can be words of a header. -/
theorem exists_words {bytes : Bytes} (h : bytes.length = 16) : ∃ header, words header = bytes := by
  obtain ⟨formatVersion, rest, rfl, hThree⟩ := exists_ofWord 12 h
  obtain ⟨flags, rest, rfl, hTwo⟩ := exists_ofWord 8 hThree
  obtain ⟨uncompressedSize, rest, rfl, hOne⟩ := exists_ofWord 4 hTwo
  obtain ⟨checksum, rest, rfl, hNone⟩ := exists_ofWord 0 hOne
  obtain rfl := List.eq_nil_of_length_eq_zero hNone
  exact ⟨⟨formatVersion, flags, uncompressedSize, checksum⟩, by simp [words]⟩

/-- Without the magic bytes of a header a file is taken for a frame. -/
theorem unwrap_of_bare {file : Bytes} (h : file.take 4 ≠ FileHeader.magic) :
    unwrap file = decompress file maxBareFrameSize := by
  unfold unwrap
  split
  · next found rest hSplit =>
    obtain ⟨rfl, hLength⟩ := split?_eq_some_iff.mp hSplit
    rw [List.take_left' hLength] at h
    rw [if_neg h]
  · rfl

/-! ### Whole envelopes -/

/-- What may stand behind the header of a container: the container itself, or a frame that holds it,
whichever frame a compressor may have chosen. -/
inductive IsPayloadOf (container : Bytes) : Bool → Bytes → Prop where
  | plain : IsPayloadOf container false container
  | framed {frame : Bytes} (hFrame : Frame.IsFrameOf container frame) :
      IsPayloadOf container true frame

/-- The header in front of a payload. -/
def headerOf (container : Bytes) (compressed : Bool) (payload : Bytes) : FileHeader where
  formatVersion := FileHeader.currentFormat
  flags := if compressed then FileHeader.compressedFlag else 0
  uncompressedSize := UInt32.ofNat container.length
  checksum := Checksum.xxh32 payload

/-- An envelope around a container, compressed or not. -/
inductive IsEnvelopeOf (container : Bytes) (compressed : Bool) : Bytes → Prop where
  | intro {payload : Bytes} (hSize : container.length < UInt32.size)
      (hPayload : IsPayloadOf container compressed payload) :
      IsEnvelopeOf container compressed ((headerOf container compressed payload).encode ++ payload)

variable {container payload file : Bytes} {compressed : Bool} {header : FileHeader}

/-- Wrapping a container makes an envelope around it. -/
theorem isEnvelopeOf_wrap (h : wrap container compressed = .ok file) :
    IsEnvelopeOf container compressed file := by
  unfold wrap at h
  split at h
  · next hSize =>
    cases h
    refine .intro hSize ?_
    cases compressed with
    | false => exact .plain
    | true => exact .framed (isFrameOf_compress container)
  · cases h

theorem isCompressed_headerOf :
    (headerOf container compressed payload).isCompressed = compressed := by
  cases compressed <;> simp [headerOf, FileHeader.isCompressed, FileHeader.compressedFlag]

/-- A size that fits in a word is recorded as it is. -/
theorem uncompressedSize_headerOf (h : container.length < UInt32.size) :
    (headerOf container compressed payload).uncompressedSize.toNat = container.length :=
  UInt32.toNat_ofNat_of_lt h

theorem length_encode (header : FileHeader) : header.encode.length = FileHeader.size := by
  simp [FileHeader.encode, FileHeader.magic, FileHeader.size]

/-- A header that was written is read back, and the rest is its payload. -/
theorem unwrap_encode_append (header : FileHeader) (payload : Bytes) :
    unwrap (header.encode ++ payload) = openPayload header payload := by
  rw [encode_eq, List.append_assoc, unwrap_of_read? (read?_words header payload)]

/-- The size in the header is checked against what is there. -/
theorem unpack_eq_ok_iff : unpack header payload = .ok container ↔
    contentOf header payload = .ok container ∧
      container.length = header.uncompressedSize.toNat := by
  rw [unpack, Except.bind_eq_ok]
  constructor
  · rintro ⟨content, hContent, hCheck⟩
    split at hCheck
    · cases hCheck
    · next hLength =>
      cases hCheck
      exact ⟨hContent, Decidable.not_not.mp hLength⟩
  · rintro ⟨hContent, hLength⟩
    exact ⟨container, hContent, if_neg (not_not_intro hLength)⟩

/-- Under the right flag a payload holds its container, as far as there is room for it. -/
theorem IsPayloadOf.contentOf_eq (h : IsPayloadOf container compressed payload)
    (hCompressed : header.isCompressed = compressed) : contentOf header payload =
      if compressed = true ∧ header.uncompressedSize.toNat < container.length then
        .error (.oversizedContent header.uncompressedSize.toNat)
      else .ok container := by
  rw [contentOf, hCompressed]
  cases h with
  | plain => simp
  | framed hFrame => simp [decompress_of_isFrameOf hFrame]

/-- Under the right flag nothing but the container is unpacked. -/
theorem IsPayloadOf.eq_of_unpack (h : IsPayloadOf container compressed payload)
    (hCompressed : header.isCompressed = compressed) {content : Bytes}
    (hUnpack : unpack header payload = .ok content) : content = container := by
  have hContent := (unpack_eq_ok_iff.mp hUnpack).1
  rw [h.contentOf_eq hCompressed] at hContent
  split at hContent
  · cases hContent
  · exact (Except.ok.inj hContent).symm

/-- An envelope gives its container back. -/
theorem IsEnvelopeOf.unwrap_eq (h : IsEnvelopeOf container compressed file) :
    unwrap file = .ok container := by
  obtain @⟨payload, hSize, hPayload⟩ := h
  have hFormat : ¬FileHeader.currentFormat <
      (headerOf container compressed payload).formatVersion := UInt32.lt_irrefl _
  have hChecksum : ¬Checksum.xxh32 payload ≠ (headerOf container compressed payload).checksum :=
    not_not_intro rfl
  rw [unwrap_encode_append, openPayload_eq, if_neg hFormat, if_neg hChecksum, unpack_eq_ok_iff,
    hPayload.contentOf_eq isCompressed_headerOf, uncompressedSize_headerOf hSize,
    if_neg fun hRoom => Nat.lt_irrefl _ hRoom.2]
  exact ⟨rfl, rfl⟩

/-- What the program wraps it unwraps. -/
theorem unwrap_wrap (h : wrap container compressed = .ok file) : unwrap file = .ok container :=
  (isEnvelopeOf_wrap h).unwrap_eq

/-- A frame without a header gives its content back as well, if that is not too large. -/
theorem unwrap_of_isFrameOf {frame : Bytes} (hFrame : Frame.IsFrameOf container frame)
    (hSize : container.length ≤ maxBareFrameSize) : unwrap frame = .ok container := by
  have hBare : frame.take 4 ≠ FileHeader.magic := by
    rw [hFrame.take_four]
    decide
  rw [unwrap_of_bare hBare, decompress_of_isFrameOf hFrame, if_neg (Nat.not_lt.mpr hSize)]

/-! ### Envelopes with a byte changed -/

/-- A change behind the header is seen by the checksum. -/
theorem unwrap_of_payload_changed {changed : Bytes} (h : OneChanged payload changed) :
    unwrap ((headerOf container compressed payload).encode ++ changed) =
      .error (.checksum (Checksum.xxh32 payload) (Checksum.xxh32 changed)) := by
  have hFormat : ¬FileHeader.currentFormat <
      (headerOf container compressed payload).formatVersion := UInt32.lt_irrefl _
  have hChecksum :
      Checksum.xxh32 changed ≠ (headerOf container compressed payload).checksum :=
    (Checksum.xxh32_ne_of_oneChanged h).symm
  rw [unwrap_encode_append, openPayload_eq, if_neg hFormat, if_pos hChecksum]
  rfl

/-- Under the wrong flag a container is no frame, but a frame may pass for a container. -/
theorem IsPayloadOf.isFrameOf_of_unpack (h : IsPayloadOf container compressed payload)
    (hFlag : header.isCompressed ≠ compressed) (hForeign : Frame.Foreign container)
    {content : Bytes} (hUnpack : unpack header payload = .ok content) :
    Frame.IsFrameOf container content := by
  have hContent := (unpack_eq_ok_iff.mp hUnpack).1
  cases h with
  | plain =>
      have hHeader : header.isCompressed = true := by simpa using hFlag
      rw [contentOf, if_pos hHeader, decompress_of_foreign hForeign] at hContent
      cases hContent
  | framed hFrame =>
      have hHeader : ¬header.isCompressed = true := by simpa using hFlag
      rw [contentOf, if_neg hHeader] at hContent
      obtain rfl := Except.ok.inj hContent
      exact hFrame

/-- Behind any other header the payload gives the same container or is refused, or a frame passes
for a container. -/
theorem openPayload_of_any_header (header : FileHeader)
    (hPayload : IsPayloadOf container compressed payload) (hForeign : Frame.Foreign container) :
    (∃ fault, openPayload header payload = .error fault) ∨
      openPayload header payload = .ok container ∨
      ∃ frame, Frame.IsFrameOf container frame ∧ openPayload header payload = .ok frame := by
  rw [openPayload_eq]
  split
  · exact .inl ⟨_, rfl⟩
  · split
    · exact .inl ⟨_, rfl⟩
    · cases hUnpack : unpack header payload with
      | error fault => exact .inl ⟨fault, rfl⟩
      | ok content =>
          by_cases hFlag : header.isCompressed = compressed
          · exact .inr (.inl (congrArg Except.ok (hPayload.eq_of_unpack hFlag hUnpack)))
          · exact .inr (.inr ⟨content, hPayload.isFrameOf_of_unpack hFlag hForeign hUnpack, rfl⟩)

/-- One byte off the magic bytes of a header are no magic bytes of a frame. -/
theorem foreign_of_magic_changed {found : Bytes} (h : OneChanged FileHeader.magic found)
    {rest : Bytes} (hRest : rest ≠ []) : Frame.Foreign (found ++ rest) := by
  have hLength : found.length = 4 := h.length_eq.symm
  have hPos := List.length_pos_iff.mpr hRest
  refine ⟨?_, ?_, ?_⟩
  · rw [List.length_append]
    omega
  · rw [List.take_left' hLength]
    rintro rfl
    cases h
  · rw [List.take_left' hLength]
    rintro rfl
    cases h

/-- An envelope with a byte changed gives the same container or is refused, or a frame passes for
a container. -/
theorem IsEnvelopeOf.unwrap_of_oneChanged {changed : Bytes}
    (hFile : IsEnvelopeOf container compressed file) (hForeign : Frame.Foreign container)
    (hChanged : OneChanged file changed) :
    (∃ fault, unwrap changed = .error fault) ∨ unwrap changed = .ok container ∨
      ∃ frame, Frame.IsFrameOf container frame ∧ unwrap changed = .ok frame := by
  obtain @⟨payload, hSize, hPayload⟩ := hFile
  rcases hChanged.of_append with ⟨front, hFront, rfl⟩ | ⟨changed, hBehind, rfl⟩
  · rw [encode_eq] at hFront
    rcases hFront.of_append with ⟨found, hFound, rfl⟩ | ⟨bytes, hBytes, rfl⟩
    · left
      have hRest : words (headerOf container compressed payload) ++ payload ≠ [] := by
        intro hNil
        have hLength := congrArg List.length hNil
        rw [List.length_append, length_words, List.length_nil] at hLength
        omega
      have hBare : (found ++ (words (headerOf container compressed payload) ++ payload)).take 4 ≠
          FileHeader.magic := by
        have hLength : found.length = 4 := hFound.length_eq.symm
        rw [List.take_left' hLength]
        exact hFound.ne.symm
      rw [List.append_assoc]
      exact ⟨_, (unwrap_of_bare hBare).trans
        (decompress_of_foreign (foreign_of_magic_changed hFound hRest) _)⟩
    · obtain ⟨header, rfl⟩ := exists_words (hBytes.length_eq.symm.trans (length_words _))
      rw [← encode_eq, unwrap_encode_append]
      exact openPayload_of_any_header header hPayload hForeign
  · exact .inl ⟨_, unwrap_of_payload_changed hBehind⟩

/-! ### Envelopes that are cut off -/

/-- Less than four bytes, but not nothing, are a truncated frame. -/
theorem unwrap_of_length_lt {front : Bytes} (h : front.length < 4) (hNe : front ≠ []) :
    unwrap front = .error (.frame .truncated) := by
  unfold unwrap
  rw [split?_eq_none h]
  simp only [decompress, Frame.decode, Frame.readStart_of_length_lt h hNe]

/-- Nothing at all passes for an empty frame. -/
theorem unwrap_nil : unwrap [] = .ok [] := rfl

/-- The words of a header are not read if one is missing. -/
theorem read?_of_length_lt {bytes : Bytes} (h : bytes.length < 16) :
    FileHeader.read? bytes = none := by
  cases hRead : FileHeader.read? bytes with
  | none => rfl
  | some found =>
      simp only [FileHeader.read?, Option.bind_eq_bind, Option.bind_eq_some_iff,
        Prod.exists] at hRead
      obtain ⟨format, rest, hFormat, flags, rest, hFlags, size, rest, hSize, checksum, rest,
        hChecksum, -⟩ := hRead
      obtain ⟨rfl, hFormat⟩ := split?_eq_some_iff.mp hFormat
      obtain ⟨rfl, hFlags⟩ := split?_eq_some_iff.mp hFlags
      obtain ⟨rfl, hSize⟩ := split?_eq_some_iff.mp hSize
      obtain ⟨rfl, hChecksum⟩ := split?_eq_some_iff.mp hChecksum
      simp only [List.length_append] at h
      omega

/-- A payload that is cut off is refused, unless it still gives the whole container. -/
theorem openPayload_of_cut {part : Bytes} (hSize : container.length < UInt32.size)
    (hPayload : IsPayloadOf container compressed payload) (hPrefix : part <+: payload) :
    (∃ fault, openPayload (headerOf container compressed payload) part = .error fault) ∨
      openPayload (headerOf container compressed payload) part = .ok container ∧
        (compressed = false → part = payload) := by
  rw [openPayload_eq]
  split
  · exact .inl ⟨_, rfl⟩
  · split
    · exact .inl ⟨_, rfl⟩
    · cases hUnpack : unpack (headerOf container compressed payload) part with
      | error fault => exact .inl ⟨fault, rfl⟩
      | ok content =>
          obtain ⟨hContent, hLength⟩ := unpack_eq_ok_iff.mp hUnpack
          rw [uncompressedSize_headerOf hSize] at hLength
          rw [contentOf, isCompressed_headerOf] at hContent
          cases hPayload with
          | plain =>
              obtain rfl := Except.ok.inj hContent
              have hWhole := hPrefix.eq_of_length hLength
              exact .inr ⟨congrArg Except.ok hWhole, fun _ => hWhole⟩
          | framed hFrame =>
              have hWhole := (prefix_of_decompress hFrame hPrefix hContent).eq_of_length hLength
              exact .inr ⟨congrArg Except.ok hWhole, fun h => nomatch h⟩

/-- What is left of a header that is cut off is refused, unless it is nothing. -/
theorem unwrap_of_header_cut {front : Bytes}
    (hPrefix : front <+: header.encode ++ payload) (hCut : front.length < FileHeader.size)
    (hNe : front ≠ []) : ∃ fault, unwrap front = .error fault := by
  by_cases hShort : front.length < FileHeader.magic.length
  · exact ⟨_, unwrap_of_length_lt hShort hNe⟩
  · rw [encode_eq, List.append_assoc] at hPrefix
    obtain ⟨bytes, rfl⟩ : FileHeader.magic <+: front :=
      List.prefix_of_prefix_length_le (List.prefix_append _ _) hPrefix (Nat.le_of_not_lt hShort)
    have hWords : bytes.length < 16 := by
      simp only [List.length_append, FileHeader.magic, FileHeader.size, List.length_cons] at hCut
      omega
    exact ⟨_, unwrap_of_read?_eq_none (read?_of_length_lt hWords)⟩

/-- An envelope that is cut off is refused, unless nothing is left of it or only the end of its
frame is missing. -/
theorem IsEnvelopeOf.unwrap_of_cut {front : Bytes} (hFile : IsEnvelopeOf container compressed file)
    (hPrefix : front <+: file) (hNe : front ≠ file) :
    (∃ fault, unwrap front = .error fault) ∨ front = [] ∧ unwrap front = .ok [] ∨
      compressed = true ∧ unwrap front = .ok container := by
  obtain @⟨payload, hSize, hPayload⟩ := hFile
  by_cases hHeader : (headerOf container compressed payload).encode <+: front
  · obtain ⟨part, rfl⟩ := hHeader
    have hPart := (List.prefix_append_right_inj _).mp hPrefix
    rw [unwrap_encode_append]
    rcases openPayload_of_cut hSize hPayload hPart with hFault | ⟨hSame, hWhole⟩
    · exact .inl hFault
    · refine .inr (.inr ⟨?_, hSame⟩)
      cases compressed with
      | true => rfl
      | false =>
          rw [hWhole rfl] at hNe
          exact (hNe rfl).elim
  · have hCut : front.length < FileHeader.size := by
      rw [← length_encode (headerOf container compressed payload)]
      apply Nat.lt_of_not_le
      intro hLe
      exact hHeader (List.prefix_of_prefix_length_le (List.prefix_append _ _) hPrefix hLe)
    by_cases hNil : front = []
    · exact .inr (.inl ⟨hNil, hNil ▸ unwrap_nil⟩)
    · exact .inl (unwrap_of_header_cut hPrefix hCut hNil)

/-- What is left of a frame that is cut off is not taken for an envelope with a header. -/
theorem unwrap_beginning {frame front : Bytes} (hFrame : Frame.IsFrameOf container frame)
    (hPrefix : front <+: frame) : unwrap front = decompress front maxBareFrameSize := by
  apply unwrap_of_bare
  intro hMagic
  have hFront : FileHeader.magic <+: front := hMagic ▸ List.take_prefix 4 front
  have hTake := List.prefix_iff_eq_take.mp (hFront.trans hPrefix)
  exact absurd (hTake.trans hFrame.take_four) (by decide)

/-- A frame that is cut off gives a beginning of its content, if it is not refused. -/
theorem prefix_of_unwrap {frame front result : Bytes} (hFrame : Frame.IsFrameOf container frame)
    (hPrefix : front <+: frame) (h : unwrap front = .ok result) : result <+: container := by
  rw [unwrap_beginning hFrame hPrefix] at h
  exact prefix_of_decompress hFrame hPrefix h

end Envelope

end GameSave
