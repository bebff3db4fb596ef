import GameSave.Delegate.Basic
import GameSave.ModifyFirst
import GameSave.Text.Quoted
/-!
The delegates of a running game, in the order in which they were added and are saved.
-/

namespace GameSave

/-- Delegates in order. No delegate is added under a name that is taken. -/
structure DelegateRoster (δ : Type) where
  toList : List δ
deriving DecidableEq, Repr

namespace DelegateRoster

variable {δ : Type} [Delegate δ]

def empty : DelegateRoster δ := ⟨[]⟩

instance : Inhabited (DelegateRoster δ) := ⟨empty⟩

def size (l : DelegateRoster δ) : Nat := l.toList.length

def isEmpty (l : DelegateRoster δ) : Bool := l.toList.isEmpty

def names (l : DelegateRoster δ) : List String := l.toList.map Delegate.name

def contains (l : DelegateRoster δ) (name : String) : Bool :=
  l.toList.any fun d => Delegate.name d == name

def get? (l : DelegateRoster δ) (name : String) : Option δ :=
  l.toList.find? fun d => Delegate.name d == name

/-- Adds a delegate at the end, unless its name is taken. -/
def add? (l : DelegateRoster δ) (d : δ) : Option (DelegateRoster δ) :=
  if l.contains (Delegate.name d) then none else some ⟨l.toList ++ [d]⟩

/-- Changes the first delegate of a name in any way, its name included. -/
def modify (l : DelegateRoster δ) (name : String) (change : δ → δ) : DelegateRoster δ :=
  ⟨modifyFirst (fun d => Delegate.name d == name) change l.toList⟩

/-- The names and types in order, for people to read. -/
def render (l : DelegateRoster δ) : String :=
  let entries := l.toList.map fun d =>
    "(" ++ Text.Quoted.encode (Delegate.name d) ++ ", " ++
      Text.Quoted.encode (Delegate.typeKey d) ++ ")"
  "[" ++ ", ".intercalate entries ++ "]"

end DelegateRoster

end GameSave
