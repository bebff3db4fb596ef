import GameSave.Proofs.Engine.Save

/-! Files that are cut off. Such a file is never loaded as another game or as
part of one: it is refused, or only bytes that do not count are missing. -/

namespace GameSave.Engine

open ContainerReader

variable {δ ε : Type}

/-! ### Containers that are cut off -/

/-- The check for trailing bytes comes last. -/
theorem readSections_eq :
    readSections = readBody >>= fun sections => finish >>= fun _ => pure sections := by
  simp [readSections, readBody]

section

variable [Delegate ε] {e : Engine ε} {path : Option String} {file : Bytes} {loaded : Version}
  {rest : ByteSource}

theorem openSave_of_readVersion {bytes : Bytes} (hUnwrap : Envelope.unwrap file = .ok bytes)
    (hVersion : readVersion (.ofBytes bytes) = .ok (loaded, rest)) :
    openSave file = .ok (loaded, rest) :=
  openSave_eq_ok_iff.mpr ⟨bytes, hUnwrap, hVersion⟩

/-- Without the body of its container a file is refused, unless the version already says that the
body is not wanted. -/
theorem load_of_readBody_error {other : Bytes} {whole : ByteSource} {fault : ContainerFault}
    (hOpen : openSave file = .ok (loaded, rest)) (hBody : readBody rest = .error fault)
    (hOther : openSave other = .ok (loaded, whole)) :
    (∃ fault, (e.load file path).outcome = .error fault) ∨
      e.load file path = e.load other path := by
  have hSections : readSections.run' rest = .error fault := by
    show (readSections rest).map Prod.fst = .error fault
    rw [readSections_eq, bind_of_error hBody]
    rfl
  have hRebuild : e.rebuildGame loaded rest = .error (.ofContainer fault) := by
    rw [rebuildGame, hSections]
    rfl
  simp only [load, hOpen, hOther, hRebuild]
  generalize e.judge loaded path = judged
  obtain ⟨consultations, verdict⟩ := judged
  cases verdict with
  | goOn => exact .inl ⟨_, rfl⟩
  | stop reason => exact .inr rfl
  | incompatible => exact .inr rfl

end

variable [Delegate δ] [Delegate ε] {saver : Engine δ} {game : RunningGame δ}

/-! ### Saves that are cut off -/

/-- With a header, a cut either shows or takes away only what stands behind the last block. -/
theorem load_of_cut_save {file front : Bytes} (hSave : saver.IsSaveOf game file)
    (hPrefix : front <+: file) (hNe : front ≠ file) (e : Engine ε) (path : Option String) :
    (∃ fault, (e.load front path).outcome = .error fault) ∨
      saver.settings.compress = true ∧ e.load front path = e.load file path := by
  obtain ⟨bytes, -, hFile⟩ := hSave
  rcases hFile.unwrap_of_cut hPrefix hNe with ⟨fault, h⟩ | ⟨-, h⟩ | ⟨hCompress, h⟩
  · exact .inl ⟨_, load_of_unwrap_error h⟩
  · obtain ⟨fault, hVersion⟩ : ∃ fault, readVersion (.ofBytes []) = .error fault :=
      readVersion_of_magic_ne rfl (by decide)
    exact .inl ⟨_, load_of_readVersion_error h hVersion⟩
  · exact .inr ⟨hCompress, load_eq_of_unwrap_eq (h.trans hFile.unwrap_eq.symm)⟩

/-- A frame without a header may end between two blocks. What it gives then is a beginning of the
container, which is never a container itself. -/
theorem load_of_cut_frame {bytes frame front : Bytes}
    (hEncode : (saver.capture game).encode = .ok bytes)
    (hSize : bytes.length ≤ Envelope.maxBareFrameSize) (hFrame : Lz4.Frame.IsFrameOf bytes frame)
    (hPrefix : front <+: frame) (e : Engine ε) (path : Option String) :
    (∃ fault, (e.load front path).outcome = .error fault) ∨
      e.load front path = e.load frame path := by
  have hWhole := Envelope.unwrap_of_isFrameOf hFrame hSize
  cases hUnwrap : Envelope.unwrap front with
  | error fault => exact .inl ⟨_, load_of_unwrap_error hUnwrap⟩
  | ok content =>
      have hContent := Envelope.prefix_of_unwrap hFrame hPrefix hUnwrap
      by_cases hSame : content = bytes
      · exact .inr (load_eq_of_unwrap_eq (by rw [hUnwrap, hWhole, hSame]))
      · cases hVersion : readVersion (.ofBytes content) with
        | error fault => exact .inl ⟨_, load_of_readVersion_error hUnwrap hVersion⟩
        | ok found =>
            obtain ⟨loaded, rest⟩ := found
            obtain ⟨⟨whole, hVersionWhole⟩, fault, hBody⟩ :=
              Container.readBody_of_cut hEncode hContent hSame hVersion
            exact load_of_readBody_error (openSave_of_readVersion hUnwrap hVersion) hBody
              (openSave_of_readVersion hWhole hVersionWhole)

/-- If a save is cut off, with its header or as a frame alone, it is refused or loads with exactly
the same result. If it is not compressed, it is always refused. This holds of the program's own
saves and of those with any other frame in them. -/
theorem load_of_cut (saver : Engine δ) (game : RunningGame δ) (e : Engine ε)
    (path : Option String) :
    (∀ file, saver.save game = .ok file → saver.IsSaveOf game file) ∧
    (∀ file front, saver.IsSaveOf game file → front <+: file → front ≠ file →
      ((∃ fault, (e.load front path).outcome = .error fault) ∨
        e.load front path = e.load file path) ∧
      (saver.settings.compress = false → ∃ fault, (e.load front path).outcome = .error fault)) ∧
    (∀ bytes, Lz4.Frame.IsFrameOf bytes (Envelope.compress bytes)) ∧
    ∀ bytes frame front, (saver.capture game).encode = .ok bytes →
      bytes.length ≤ Envelope.maxBareFrameSize → Lz4.Frame.IsFrameOf bytes frame →
      front <+: frame → front ≠ frame →
      (∃ fault, (e.load front path).outcome = .error fault) ∨
        e.load front path = e.load frame path := by
  refine ⟨fun file => isSaveOf_of_save, ?_, Envelope.isFrameOf_compress, ?_⟩
  · intro file front hSave hPrefix hNe
    rcases load_of_cut_save hSave hPrefix hNe e path with hFault | ⟨hCompress, hSame⟩
    · exact ⟨.inl hFault, fun _ => hFault⟩
    · refine ⟨.inr hSame, fun hPlain => ?_⟩
      rw [hCompress] at hPlain
      cases hPlain
  · intro bytes frame front hEncode hSize hFrame hPrefix _
    exact load_of_cut_frame hEncode hSize hFrame hPrefix e path

/-- A save of a blank game without its last byte, and the beginning of a frame with the same
container. -/
theorem load_of_cut_blank :
    let saver : Engine BuiltinDelegate :=
      .standard id { Settings.standard with compress := false }
    let bytes : Bytes := [71, 68, 65, 84, 1, 0, 0, 0, 9, 0, 0, 0, 0, 0, 0, 0, 3, 0, 0, 0, 7, 0, 0,
      0, 0, 4, 0, 0, 0, 0, 0, 223]
    let file : Bytes := [84, 71, 83, 86, 1, 0, 0, 0, 0, 0, 0, 0, 32, 0, 0, 0, 49, 160, 47, 31] ++
      bytes
    saver.save .blank = .ok file ∧
      (∃ fault, (saver.load (file.take 51) none).outcome = .error fault) ∧
      ((∃ fault, (saver.load Lz4.Descriptor.magic none).outcome = .error fault) ∨
        saver.load Lz4.Descriptor.magic none =
          saver.load (Envelope.compress bytes) none) := by
  intro saver bytes file
  have hSave : saver.save .blank = .ok file := Except.toOption_eq_some.mp (by decide +kernel)
  have hEncode : (saver.capture .blank).encode = .ok bytes :=
    Except.toOption_eq_some.mp (by decide +kernel)
  have hBeginning : Lz4.Descriptor.magic <+: Envelope.compress bytes := by
    rw [← (Envelope.isFrameOf_compress bytes).take_four]
    exact List.take_prefix 4 _
  have hShorter : Lz4.Descriptor.magic ≠ Envelope.compress bytes := by
    intro h
    cases congrArg (List.drop 4) h
  obtain ⟨hOwn, hSaves, hCompress, hFrames⟩ := load_of_cut saver .blank saver none
  have hPart := hSaves file (file.take 51) (hOwn file hSave) (List.take_prefix _ _) (by decide)
  have hFrame := hFrames bytes _ _ hEncode (by decide) (hCompress bytes) hBeginning hShorter
  exact ⟨hSave, hPart.2 rfl, hFrame⟩

end GameSave.Engine
