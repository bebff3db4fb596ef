import GameSave.Bytes
import GameSave.FileSystem.Fault
import GameSave.FileSystem.Path
/-!
File systems: a tree of directories and regular files, without links and permissions.

An operation either changes the tree as it should or fails and changes nothing.
-/

namespace GameSave

/-- A place in the tree: the names on the way to it from the root. -/
abbrev Location := List String

/-- What can be at a place. -/
inductive Node where
  | file (content : Bytes)
  | directory
deriving DecidableEq, Repr

/-- What is where, apart from the root, which is always a directory. No place comes twice. -/
structure FileSystem where
  nodes : List (Location × Node)
  nodup : (nodes.map Prod.fst).Nodup
deriving DecidableEq, Repr

namespace FileSystem

def empty : FileSystem := ⟨[], .nil⟩

instance : Inhabited FileSystem := ⟨empty⟩

def node? (fs : FileSystem) (place : Location) : Option Node :=
  if place = [] then some .directory
  else (fs.nodes.find? fun entry => entry.1 == place).map Prod.snd

/-- The tree without what is at a place. -/
def erase (fs : FileSystem) (place : Location) : FileSystem where
  nodes := fs.nodes.filter fun entry => entry.1 != place
  nodup := fs.nodup.sublist (List.filter_sublist.map Prod.fst)

theorem not_mem_erase (fs : FileSystem) (place : Location) :
    place ∉ (fs.erase place).nodes.map Prod.fst := by
  simp [erase]

/-- The tree with something else at a place. -/
def put (fs : FileSystem) (place : Location) (node : Node) : FileSystem where
  nodes := (place, node) :: (fs.erase place).nodes
  nodup := List.nodup_cons.mpr ⟨fs.not_mem_erase place, (fs.erase place).nodup⟩

/-- Only the place itself is empty afterwards. -/
theorem node?_erase (fs : FileSystem) {place : Location} (hPlace : place ≠ [])
    (other : Location) :
    (fs.erase place).node? other = if other = place then none else fs.node? other := by
  by_cases hOther : other = []
  · simp [node?, hOther, Ne.symm hPlace]
  · simp only [node?, erase, hOther, if_false, List.find?_filter]
    split
    · next h => simp [h]
    · next h =>
      congr 2
      funext entry
      by_cases hEntry : entry.1 = other <;> simp [hEntry, h]

/-- Only the place itself has changed afterwards. -/
theorem node?_put (fs : FileSystem) {place : Location} (hPlace : place ≠ []) (node : Node)
    (other : Location) :
    (fs.put place node).node? other = if other = place then some node else fs.node? other := by
  have hErase := node?_erase fs hPlace other
  by_cases hOther : other = []
  · simp [node?, hOther, Ne.symm hPlace]
  · simp only [node?, hOther, if_false] at hErase ⊢
    simp only [put, List.find?_cons]
    by_cases h : other = place
    · simp [h]
    · simpa [h, beq_eq_false_iff_ne.mpr (Ne.symm h)] using hErase

/-! ### Paths in a tree -/

/-- What a path leads to. -/
inductive Target where
  /-- A name in a directory, whether or not there is anything of that name. -/
  | entry (directory : Location) (name : String) (slash : Bool)
  /-- A directory that the path does not call by its name. -/
  | directory (place : Location)
deriving DecidableEq, Repr

/-- Refuses what can be no path: a text with a NUL character in it, or one that is too long. -/
def permit (path : String) : Except FileFault Unit :=
  if path.toList.contains '\x00' then .error .nulInPath
  else if Path.longest < path.utf8ByteSize then .error .nameTooLong
  else .ok ()

/-- Why there is nothing of a name in a directory. -/
def absence (name : String) : FileFault := if Path.fits name then .notFound else .nameTooLong

/-- Goes from a directory to another that a piece of a path names. -/
def enter (fs : FileSystem) (here : Location) (name : String) : Except FileFault Location :=
  if name = ".." then .ok here.dropLast
  else
    match fs.node? (here ++ [name]) with
    | some .directory => .ok (here ++ [name])
    | some (.file _) => .error .notADirectory
    | none => .error (absence name)

def walk (fs : FileSystem) (names : List String) : Except FileFault Location :=
  names.foldlM fs.enter []

/-- What some names and an ending lead to. -/
def locate (fs : FileSystem) (names : List String) (ending : Path.Ending) :
    Except FileFault Target :=
  match names.getLast? with
  | none => .ok (.directory [])
  | some name =>
    if ending = .dot ∨ name = ".." then .directory <$> fs.walk names
    else (fun directory => .entry directory name (ending == .slash)) <$> fs.walk names.dropLast

/-- What a path leads to. The empty path leads nowhere. -/
def resolve (fs : FileSystem) (path : String) : Except FileFault Target := do
  permit path
  if path = "" then throw .notFound
  fs.locate (Path.names path) (Path.ending path)

def isDirectory (fs : FileSystem) (path : String) : Bool :=
  match fs.resolve path with
  | .error _ => false
  | .ok (.directory _) => true
  | .ok (.entry directory name _) => fs.node? (directory ++ [name]) == some .directory

/-! ### Operations -/

def read (fs : FileSystem) (path : String) : Except FileFault Bytes := do
  match ← fs.resolve path with
  | .directory _ => throw .isADirectory
  | .entry directory name slash =>
    match fs.node? (directory ++ [name]) with
    | none => throw (absence name)
    | some .directory => throw .isADirectory
    | some (.file content) => if slash then throw .notADirectory else return content

/-- Makes a file empty, and makes the file first if there is none. -/
def create (fs : FileSystem) (path : String) : Except FileFault FileSystem := do
  match ← fs.resolve path with
  | .directory _ => throw .isADirectory
  | .entry _ _ true => throw .isADirectory
  | .entry directory name false =>
    match fs.node? (directory ++ [name]) with
    | some .directory => throw .isADirectory
    | _ =>
      unless Path.fits name do throw .nameTooLong
      return fs.put (directory ++ [name]) (.file [])

/-- Adds bytes at the end of a file. -/
def append (fs : FileSystem) (path : String) (bytes : Bytes) : Except FileFault FileSystem := do
  let content ← fs.read path
  match ← fs.resolve path with
  | .directory _ => throw .isADirectory
  | .entry directory name _ => return fs.put (directory ++ [name]) (.file (content ++ bytes))

def makeDirectory (fs : FileSystem) (path : String) : Except FileFault FileSystem := do
  match ← fs.resolve path with
  | .directory _ => throw .alreadyExists
  | .entry directory name _ =>
    match fs.node? (directory ++ [name]) with
    | some _ => throw .alreadyExists
    | none =>
      unless Path.fits name do throw .nameTooLong
      return fs.put (directory ++ [name]) .directory

/-- Puts a file at the place of another, or at one where nothing was. -/
def renameFile (fs : FileSystem) (source target : String) : Except FileFault FileSystem := do
  let from? ← fs.resolve source
  let to? ← fs.resolve target
  match from?, to? with
  | .entry sourceDirectory sourceName sourceSlash, .entry directory name slash =>
    match fs.node? (sourceDirectory ++ [sourceName]), fs.node? (directory ++ [name]) with
    | none, _ => throw (absence sourceName)
    | some .directory, _ => throw .isADirectory
    | some (.file content), former =>
      if sourceSlash || slash then throw .notADirectory
      else if former = some .directory then throw .isADirectory
      else
        unless Path.fits name do throw .nameTooLong
        return (fs.erase (sourceDirectory ++ [sourceName])).put (directory ++ [name])
          (.file content)
  | _, _ => throw .busy

/-- What stands directly in a directory, with its place. -/
def children (fs : FileSystem) (directory : Location) : List (Location × Node) :=
  fs.nodes.filter fun entry => entry.1 ≠ [] && entry.1.dropLast == directory

/-- What stands directly in the directory that a path leads to. -/
def list (fs : FileSystem) (path : String) : Except FileFault (List (Location × Node)) := do
  match ← fs.resolve path with
  | .directory place => return fs.children place
  | .entry directory name _ =>
    match fs.node? (directory ++ [name]) with
    | none => throw (absence name)
    | some (.file _) => throw .notADirectory
    | some .directory => return fs.children (directory ++ [name])

end FileSystem

end GameSave
