/-!
Paths: texts that say how to get from the root of a file system to a file or directory.

A path is taken apart at its slashes. Empty pieces and `.` lead nowhere, `..` leads back, and every
other piece is a name. All paths start at the root, with or without a slash in front.
-/

namespace GameSave.Path

/-- The pieces of a path between its slashes. -/
def pieces (path : String) : List String :=
  (path.toList.splitOnP fun c => c == '/').map String.ofList

def isName (piece : String) : Bool := piece != "" && piece != "."

/-- The pieces of a path that lead anywhere. -/
def names (path : String) : List String := (pieces path).filter isName

/-- The path whose pieces are given backwards, and those that it goes through, from the inside
out. Each ends in a name. -/
def outward : (backwards : List String) → List String
  | [] => []
  | piece :: outer =>
    if isName piece then "/".intercalate (piece :: outer).reverse :: outward outer
    else outward outer

/-- The paths of the directories around what a path leads to, from the inside out. -/
def around (path : String) : List String := (outward (pieces path).reverse).drop 1

/-- The greatest number of bytes in a name. -/
def longestName : Nat := 255

/-- The greatest number of bytes in a path. -/
def longest : Nat := 4095

/-- Whether a file or directory can have a name. -/
def fits (name : String) : Bool := name.utf8ByteSize ≤ longestName

/-- How a path ends. -/
inductive Ending where
  | name
  /-- In a name and a slash, which only a directory can have behind it. -/
  | slash
  /-- In a dot, which stands for the directory before it. -/
  | dot
deriving DecidableEq, Repr

def ending (path : String) : Ending :=
  let backwards := (pieces path).reverse
  if (backwards.dropWhile fun piece => piece == "").head? = some "." then .dot
  else if backwards.head? = some "" then .slash
  else .name

/-- The path of the file that stands in for another while that one is written. -/
def temporary (path : String) : String := path ++ ".tmp"

/-- The path of what has a name in a directory. -/
def inside (directory name : String) : String :=
  if directory = "" ∨ directory.toList.getLast? = some '/' then directory ++ name
  else directory ++ "/" ++ name

/-- What follows the last dot of a file name. A dot at the beginning does not count. -/
def extension? (name : String) : Option String :=
  let backwards := name.toList.reverse
  let stem := (backwards.dropWhile fun c => c != '.').drop 1
  if stem = [] ∨ name = ".." then none
  else some (String.ofList (backwards.takeWhile fun c => c != '.').reverse)

end GameSave.Path
