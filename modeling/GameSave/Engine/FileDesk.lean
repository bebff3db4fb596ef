import GameSave.Engine.Files
import GameSave.Lock
/-!
File desks. All saves and loads that go through one desk are done one after the other, so that no
two of them ever write the same temporary file.
-/

namespace GameSave

/-- Files, and the lock that whoever works on them holds. -/
structure FileDesk where
  files : FileSystem
  lock : Lock
deriving DecidableEq, Repr

namespace FileDesk

def ofFiles (files : FileSystem) : FileDesk := ⟨files, .free⟩

def isBusy (desk : FileDesk) : Bool := desk.lock.isHeld

/-- Works on the files alone, and lets go of them whatever comes of it. -/
def exclusively {α : Type} (work : StateM FileSystem α) : StateM FileDesk α := do
  modify fun desk => { desk with lock := .exclusive }
  let (result, files) := work.run (← get).files
  modify fun desk => { desk with files, lock := desk.lock.release }
  return result

section
variable {δ : Type} [Delegate δ]

/-- Saves a game to a file, and tells the size of the file. -/
def save (e : Engine δ) (game : RunningGame δ) (path : String) :
    StateM FileDesk (Except SaveFault Nat) :=
  exclusively (e.saveToFile game path).run

def load (e : Engine δ) (path : String) : StateM FileDesk (LoadRun δ) :=
  exclusively (e.loadFile path <$> get)

end

/-- Whether an entry of a directory is a file that was left behind by a save that did not come to
its end. A file with a path that is too long is not seen. -/
def isLeftover (directory : String) : Location × Node → Bool
  | (place, .file _) => place.getLast?.any fun name =>
    Path.extension? name == some "tmp" && (FileSystem.permit (Path.inside directory name)).isOk
  | (_, .directory) => false

/-- Removes what saves have left behind in a directory, and tells how many files that were. Files
that the system does not let go stay. -/
def cleanExcept (held : Location → Bool) (directory : String) :
    StateM FileDesk (Except FileFault Nat) :=
  exclusively <| modifyGet fun files =>
    match files.list directory with
    | .error fault => (.error fault, files)
    | .ok entries =>
      let leftovers := (entries.filter (isLeftover directory)).map Prod.fst
      let removed := leftovers.filter fun place => !held place
      (.ok removed.length, removed.foldl FileSystem.erase files)

/-- Removes all that saves have left behind in a directory, and tells how many files that were. -/
def clean (directory : String) : StateM FileDesk (Except FileFault Nat) :=
  cleanExcept (fun _ => false) directory

end FileDesk

end GameSave
