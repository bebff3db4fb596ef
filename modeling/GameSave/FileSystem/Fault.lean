/-!
What can go wrong with files.
-/

namespace GameSave

/-- Why an operation on a file system failed. -/
inductive FileFault where
  | notFound
  | isADirectory
  | notADirectory
  | alreadyExists
  /-- The place cannot be replaced, because it is named by what is always there. -/
  | busy
  /-- A name, or the whole path, is longer than it may be. -/
  | nameTooLong
  /-- The path has a NUL character in it. -/
  | nulInPath
deriving DecidableEq, Repr

def FileFault.message : FileFault → String
  | .notFound => "No such file or directory"
  | .isADirectory => "Is a directory"
  | .notADirectory => "Not a directory"
  | .alreadyExists => "File exists"
  | .busy => "Device or resource busy"
  | .nameTooLong => "File name too long"
  | .nulInPath => "file name contained an unexpected NUL byte"

end GameSave
