import GameSave.Engine.Load
import GameSave.Engine.Save
import GameSave.FileSystem.Replace
/-!
Saves and settings in files.
-/

namespace GameSave

/-- An operation on files that can also fail for reasons of its own. -/
abbrev SaveOperation (α : Type) := ExceptT SaveFault (StateM FileSystem) α

/-- What becomes of a fault of the file system. -/
def SaveFault.ofFile (fault : FileFault) : SaveFault := .io (.file fault)

namespace Engine

variable {δ : Type} [Delegate δ]

/-- Saves a game to a file, and tells the size of the file. The save is complete before the file
system is touched. -/
def saveToFile (e : Engine δ) (game : RunningGame δ) (path : String) : SaveOperation Nat := do
  let file ← ExceptT.mk (pure (e.save game))
  (FileOperation.replaceFile path file).adapt .ofFile
  return file.length

def loadFile (e : Engine δ) (path : String) (files : FileSystem) : LoadRun δ :=
  match files.read path with
  | .error fault => ⟨[], .error (.ofFile fault)⟩
  | .ok file => e.load file (some path)

end Engine

def Settings.loadFile (path : String) (files : FileSystem) : Except SaveFault Settings := do
  let bytes ← (files.read path).mapError .ofFile
  let json ← (Text.Utf8.decode bytes).mapError fun fault => .io (.notText fault)
  (Settings.ofJson json).mapError .config

end GameSave
