import GameSave.Proofs.Engine.Save

/-! Saves with one byte changed. Such a file is never loaded as another game: it
is refused, or the change does not show. -/

namespace GameSave.Engine

open Bytes Checksum

variable {δ ε : Type} [Delegate δ] [Delegate ε] {saver : Engine δ} {game : RunningGame δ}
  {file : Bytes}

/-- Whatever a changed file unwraps to, it shows the same container or nothing. -/
theorem load_of_oneChanged {changed : Bytes} (hSave : saver.IsSaveOf game file)
    (hChanged : OneChanged file changed) (e : Engine ε) (path : Option String) :
    (∃ fault, (e.load changed path).outcome = .error fault) ∨
      e.load changed path = e.load file path := by
  obtain ⟨bytes, hEncode, hFile⟩ := hSave
  have hForeign := Container.foreign_of_encode hEncode
  rcases hFile.unwrap_of_oneChanged hForeign hChanged with ⟨fault, h⟩ | h | ⟨frame, hFrame, h⟩
  · exact .inl ⟨_, load_of_unwrap_error h⟩
  · exact .inr (load_eq_of_unwrap_eq (h.trans hFile.unwrap_eq.symm))
  · obtain ⟨fault, hVersion⟩ := ContainerReader.readVersion_of_isFrameOf hFrame
    exact .inl ⟨_, load_of_readVersion_error h hVersion⟩

/-- A change behind the header leaves the header as it is. -/
theorem oneChanged_drop_of_set {n i : Nat} (hLe : n ≤ i) (hi : i < file.length) {v : UInt8}
    (hv : v ≠ file[i]) : OneChanged (file.drop n) ((file.set i v).drop n) := by
  rcases (OneChanged.of_set hi hv).split n with ⟨hTake, -⟩ | ⟨-, hDrop⟩
  · refine absurd ?_ hTake.ne
    rw [List.take_set_of_le hLe]
  · exact hDrop

/-- The payload of a save has another checksum if a byte of it changes. -/
theorem load_of_payload_changed {changed : Bytes} (hSave : saver.IsSaveOf game file)
    (hHeader : changed.take FileHeader.size = file.take FileHeader.size)
    (hChanged : OneChanged (file.drop FileHeader.size) (changed.drop FileHeader.size))
    (e : Engine ε) (path : Option String) :
    (e.load changed path).outcome =
      .error (.corruptContainer (.envelope (.checksum (xxh32 (file.drop FileHeader.size))
        (xxh32 (changed.drop FileHeader.size))))) := by
  obtain ⟨bytes, -, @⟨payload, -, -⟩⟩ := hSave
  rw [List.take_left' (Envelope.length_encode _)] at hHeader
  rw [List.drop_left' (Envelope.length_encode _)] at hChanged ⊢
  have hUnwrap :
      Envelope.unwrap ((Envelope.headerOf bytes saver.settings.compress payload).encode ++
        changed.drop FileHeader.size) = _ := Envelope.unwrap_of_payload_changed hChanged
  rw [← hHeader, List.take_append_drop] at hUnwrap
  exact load_of_unwrap_error hUnwrap

/-- If one byte of a save changes, the file is refused or loads with exactly the same result. Behind
the header the checksum always sees the change. This holds of the program's own saves and of those
with any other frame in them. -/
theorem load_of_set_byte (saver : Engine δ) (game : RunningGame δ) :
    (∀ file, saver.save game = .ok file → saver.IsSaveOf game file) ∧
    ∀ file, saver.IsSaveOf game file → ∀ i (hi : i < file.length) v, v ≠ file[i] →
      ∀ (e : Engine ε) path,
        ((∃ fault, (e.load (file.set i v) path).outcome = .error fault) ∨
          e.load (file.set i v) path = e.load file path) ∧
        (FileHeader.size ≤ i →
          xxh32 ((file.set i v).drop FileHeader.size) ≠ xxh32 (file.drop FileHeader.size) ∧
          (e.load (file.set i v) path).outcome =
            .error (.corruptContainer (.envelope (.checksum (xxh32 (file.drop FileHeader.size))
              (xxh32 ((file.set i v).drop FileHeader.size)))))) := by
  refine ⟨fun file => isSaveOf_of_save, fun file hSave i hi v hv e path => ?_⟩
  refine ⟨load_of_oneChanged hSave (.of_set hi hv) e path, fun hBehind => ?_⟩
  have hPayload := oneChanged_drop_of_set hBehind hi hv
  refine ⟨(xxh32_ne_of_oneChanged hPayload).symm, ?_⟩
  exact load_of_payload_changed hSave (List.take_set_of_le hBehind) hPayload e path

/-- A save of a blank game, with the first byte of its container cleared. -/
theorem load_of_set_byte_blank :
    let saver : Engine BuiltinDelegate :=
      .standard id { Settings.standard with compress := false }
    let file : Bytes := [84, 71, 83, 86, 1, 0, 0, 0, 0, 0, 0, 0, 32, 0, 0, 0, 49, 160, 47, 31,
      71, 68, 65, 84, 1, 0, 0, 0, 9, 0, 0, 0, 0, 0, 0, 0, 3, 0, 0, 0, 7, 0, 0, 0, 0, 4, 0, 0, 0, 0,
      0, 223]
    saver.save .blank = .ok file ∧ ∃ damage,
      (saver.load (file.set 20 0) none).outcome = .error (.corruptContainer damage) := by
  intro saver file
  have hSave : saver.save .blank = .ok file := Except.toOption_eq_some.mp (by decide +kernel)
  obtain ⟨hOwn, hAny⟩ := load_of_set_byte (ε := BuiltinDelegate) saver .blank
  have hByte : (0 : UInt8) ≠ file[20] := by decide
  have hLoad := hAny file (hOwn file hSave) 20 (by decide) 0 hByte saver none
  exact ⟨hSave, _, (hLoad.2 (by decide)).2⟩

end GameSave.Engine
