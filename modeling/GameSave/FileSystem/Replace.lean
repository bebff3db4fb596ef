import GameSave.FileSystem.Operation
/-!
Replacing files as a whole.

The new content is written to a temporary file beside the old one, which is then put in its place
in one step. Whenever the work is interrupted, the file is as it was before or as it should be.
-/

namespace GameSave

/-- A step of replacing a file. -/
inductive ReplaceStep where
  /-- Makes the directories that the file should be in, from the inside out. -/
  | makeDirectories (paths : List String)
  | create (path : String)
  | append (path : String) (bytes : Bytes)
  /-- Waits until what was written is on the medium. -/
  | flush (path : String)
  | rename (source target : String)
deriving DecidableEq, Repr

namespace ReplaceStep

def run : ReplaceStep → FileOperation Unit
  | makeDirectories paths => FileOperation.makeDirectories paths
  | create path => .change fun fs => fs.create path
  | append path bytes => .change fun fs => fs.append path bytes
  | flush _ => return
  | rename source target => .change fun fs => fs.renameFile source target

def all (path : String) (content : Bytes) : List ReplaceStep :=
  let temporary := Path.temporary path
  [makeDirectories (Path.around path), create temporary, append temporary content,
   flush temporary, rename temporary path]

end ReplaceStep

/-- Replaces a file, or makes it if there is none. -/
def FileOperation.replaceFile (path : String) (content : Bytes) : FileOperation Unit :=
  (ReplaceStep.all path content).forM ReplaceStep.run

end GameSave
