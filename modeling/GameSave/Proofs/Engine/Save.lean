import GameSave.Engine.Save
import GameSave.Proofs.Container.RoundTrip
import GameSave.Proofs.Engine.Load
import GameSave.Proofs.Envelope

/-! Files that saving makes, and what a load sees of a file. -/

namespace GameSave

open ContainerReader Lz4

/-! ### Containers in files -/

theorem Container.take_of_encode {c : Container} {bytes : Bytes} (h : c.encode = .ok bytes) :
    bytes.take 4 = Container.magic := by
  obtain ⟨body, rfl, -⟩ := Container.encode_eq_ok h
  simp [Container.magic]

/-- No container begins as a frame does. -/
theorem Container.foreign_of_encode {c : Container} {bytes : Bytes} (h : c.encode = .ok bytes) :
    Frame.Foreign bytes := by
  refine ⟨?_, ?_, ?_⟩
  · obtain ⟨body, rfl, -⟩ := Container.encode_eq_ok h
    simp only [Container.magic, Version.encode, List.length_append, List.length_cons,
      LittleEndian.length_ofWord]
    omega
  · rw [Container.take_of_encode h]
    decide
  · rw [Container.take_of_encode h]
    decide

/-- No frame begins as a container does. -/
theorem ContainerReader.readVersion_of_isFrameOf {content frame : Bytes}
    (h : Frame.IsFrameOf content frame) :
    ∃ fault, readVersion (.ofBytes frame) = .error fault := by
  apply readVersion_of_magic_ne rfl
  show frame.take 4 ≠ Container.magic
  rw [h.take_four]
  decide

namespace Engine

variable {δ ε : Type}

/-! ### Saves -/

section

variable [Delegate δ] {saver : Engine δ} {game : RunningGame δ} {file : Bytes}

/-- What a save of a game may be: an envelope around its container, compressed if the settings say
so, and then with any frame that a compressor may choose. -/
def IsSaveOf (saver : Engine δ) (game : RunningGame δ) (file : Bytes) : Prop :=
  ∃ bytes, (saver.capture game).encode = .ok bytes ∧
    Envelope.IsEnvelopeOf bytes saver.settings.compress file

/-- The program's own save is one of those that there may be. -/
theorem isSaveOf_of_save (h : saver.save game = .ok file) : saver.IsSaveOf game file := by
  simp only [save, Except.bind_eq_ok, Except.mapError_eq_ok] at h
  obtain ⟨bytes, hEncode, hWrap⟩ := h
  exact ⟨bytes, hEncode, Envelope.isEnvelopeOf_wrap hWrap⟩

/-- A save holds the container that was captured. -/
theorem IsSaveOf.unwrap_eq (h : saver.IsSaveOf game file) :
    ∃ bytes, (saver.capture game).encode = .ok bytes ∧ Envelope.unwrap file = .ok bytes := by
  obtain ⟨bytes, hEncode, hFile⟩ := h
  exact ⟨bytes, hEncode, hFile.unwrap_eq⟩

end

/-! ### Loads -/

section

variable [Delegate ε] {e : Engine ε} {path : Option String} {file changed : Bytes}

/-- Of a file a load sees nothing but the container. -/
theorem load_eq_of_unwrap_eq (h : Envelope.unwrap changed = Envelope.unwrap file) :
    e.load changed path = e.load file path := by
  have hOpen : openSave changed = openSave file := by rw [openSave, openSave, h]
  rw [load, load, hOpen]

/-- A file that does not open is refused for the same reason. -/
theorem load_of_openSave_error {fault : SaveFault} (h : openSave file = .error fault) :
    (e.load file path).outcome = .error fault := by
  simp only [load, h]

/-- A damaged envelope is refused for its damage. -/
theorem load_of_unwrap_error {fault : EnvelopeFault} (h : Envelope.unwrap file = .error fault) :
    (e.load file path).outcome = .error (.ofEnvelope fault) := by
  apply load_of_openSave_error
  rw [openSave, h]
  rfl

/-- A file without a version in its container is refused. -/
theorem load_of_readVersion_error {bytes : Bytes} (hUnwrap : Envelope.unwrap file = .ok bytes)
    {fault : ContainerFault} (h : readVersion (.ofBytes bytes) = .error fault) :
    (e.load file path).outcome = .error (.ofContainer fault) := by
  apply load_of_openSave_error
  rw [openSave, hUnwrap]
  show (readVersion (.ofBytes bytes)).mapError SaveFault.ofContainer = _
  rw [h]
  rfl

end

end Engine

end GameSave
