import GameSave.Engine.FileDesk
import GameSave.Proofs.FileSystem.Replace

/-! Saves in files, and what a file desk does to its files. -/

namespace GameSave

namespace Engine

variable {δ : Type} [Delegate δ]

/-- A game that cannot be saved leaves the files alone. Any other replaces its file. -/
theorem run_saveToFile (e : Engine δ) (game : RunningGame δ) (path : String) (fs : FileSystem) :
    (e.saveToFile game path).run.run fs = match e.save game with
      | .error fault => (.error fault, fs)
      | .ok file =>
        let replaced := (FileOperation.replaceFile path file).run.run fs
        ((replaced.1.mapError .ofFile).map fun _ => file.length, replaced.2) := by
  have hSave : (ExceptT.mk (pure (e.save game)) : SaveOperation Bytes).run.run fs =
      (e.save game, fs) := rfl
  rw [saveToFile, FileOperation.run_bind, hSave]
  cases e.save game with
  | error fault => rfl
  | ok file =>
      dsimp only
      rw [FileOperation.run_bind, FileOperation.run_adapt]
      rcases (FileOperation.replaceFile path file).run.run fs with ⟨fault | _, after⟩ <;> rfl

end Engine

namespace FileDesk

variable {δ : Type} [Delegate δ]

/-- Work is done on the files as they are, and the lock is free afterwards. -/
theorem run_exclusively {α : Type} (work : StateM FileSystem α) (desk : FileDesk) :
    (exclusively work).run desk =
      ((work.run desk.files).1, ⟨(work.run desk.files).2, .free⟩) := rfl

theorem run_save (e : Engine δ) (game : RunningGame δ) (path : String) (desk : FileDesk) :
    (save e game path).run desk =
      let saved := (e.saveToFile game path).run.run desk.files
      (saved.1, ⟨saved.2, .free⟩) :=
  run_exclusively _ desk

/-- A load leaves all files alone. -/
theorem run_load (e : Engine δ) (path : String) (desk : FileDesk) :
    (load e path).run desk = (e.loadFile path desk.files, ⟨desk.files, .free⟩) := rfl

end FileDesk

end GameSave
