import GameSave.FileSystem.Basic
/-!
Sequences of operations on a file system. If one of them fails, what those before it did remains.
-/

namespace GameSave

/-- Operations on a file system. They leave a tree behind, whether they fail or not. -/
abbrev FileOperation (α : Type) := ExceptT FileFault (StateM FileSystem) α

namespace FileOperation

/-- One operation that changes the tree or fails. -/
def change (f : FileSystem → Except FileFault FileSystem) : FileOperation Unit := do
  set (← ExceptT.mk (f <$> get))

/-- Makes the directories that do not exist of some that lie in each other, from the inside out. -/
def makeDirectories : (paths : List String) → FileOperation Unit
  | [] => return
  | path :: outer => do
    let make := change fun fs => fs.makeDirectory path
    let orKeep (fault : FileFault) : FileOperation Unit := do
      unless (← get).isDirectory path do throw fault
    tryCatch make fun
      | .notFound => do
        makeDirectories outer
        tryCatch make orKeep
      | fault => orKeep fault

/-- Makes a file with the given content, in place of the one that was there. -/
def writeFile (path : String) (content : Bytes) : FileOperation Unit := do
  change fun fs => fs.create path
  change fun fs => fs.append path content

end FileOperation

end GameSave
