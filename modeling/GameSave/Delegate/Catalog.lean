import GameSave.Container.Basic
import GameSave.Delegate.Builtin
import GameSave.Delegate.Roster
import GameSave.SaveFault
/-!
The types of delegates that an engine knows, by which it builds the delegates of a save.

Nothing in a save is made into a delegate other than through this table.
-/

namespace GameSave

/-- A type that is registered already. -/
structure DuplicateType where
  key : String
deriving DecidableEq, Repr

def DuplicateType.message (e : DuplicateType) : String :=
  "DelegateRegistry: duplicate type key '" ++ e.key ++ "'"

/-- Types of delegates, each registered once. -/
structure DelegateCatalog (δ : Type) where
  types : List (DelegateType δ)
  nodup : (types.map DelegateType.key).Nodup

namespace DelegateCatalog

variable {δ : Type}

def empty : DelegateCatalog δ := ⟨[], .nil⟩

instance : Inhabited (DelegateCatalog δ) := ⟨empty⟩

def size (r : DelegateCatalog δ) : Nat := r.types.length

def isEmpty (r : DelegateCatalog δ) : Bool := r.types.isEmpty

def keys (r : DelegateCatalog δ) : List String := r.types.map DelegateType.key

def contains (r : DelegateCatalog δ) (key : String) : Bool := r.keys.contains key

theorem nodup_append_singleton {keys : List String} {key : String} (h : keys.Nodup)
    (hNew : key ∉ keys) : (keys ++ [key]).Nodup :=
  List.nodup_append.mpr ⟨h, by simp, fun a ha b hb hEq => by
    rw [List.mem_singleton.mp hb] at hEq
    exact hNew (hEq ▸ ha)⟩

/-- Registers a type, unless its key is taken. -/
def register (r : DelegateCatalog δ) (type : DelegateType δ) :
    Except DuplicateType (DelegateCatalog δ) :=
  if h : type.key ∈ r.keys then .error ⟨type.key⟩
  else
    .ok ⟨r.types ++ [type], by
      rw [List.map_append]
      exact nodup_append_singleton r.nodup h⟩

def ofList (types : List (DelegateType δ)) : Except DuplicateType (DelegateCatalog δ) :=
  types.foldlM register empty

/-- The types that every engine has, as delegates of an engine that may have more. -/
def builtin (embed : BuiltinDelegate → δ) : DelegateCatalog δ where
  types := BuiltinDelegate.types.map fun type => ⟨type.key, embed type.blank⟩
  nodup := by simp [BuiltinDelegate.types, PurchaseDelegate.key, MovementDelegate.key,
    EndTurnDelegate.key]

/-- A new delegate of a type, without an identity. -/
def resolve (r : DelegateCatalog δ) (key : String) : Except SaveFault δ :=
  match r.types.find? fun type => type.key == key with
  | some type => .ok type.blank
  | none => .error (.unknownDelegateType key)

variable [Delegate δ]

/-- A new delegate of a type with its identity. -/
def construct (r : DelegateCatalog δ) (key : String) (identity : Identity) :
    Except SaveFault δ :=
  (r.resolve key).map fun d => Delegate.withIdentity d identity

def restore (d : δ) (state : Bytes) : Except SaveFault δ :=
  (Delegate.loadState d state).mapError fun reason =>
    .delegateStateCorrupt (Delegate.name d) reason

/-- The delegate of an entry: of its type, with its identity, and with its state if it has one. -/
def rebuild (r : DelegateCatalog δ) (entry : DelegateEntry) : Except SaveFault δ := do
  let d ← r.construct entry.typeKey entry.identity
  match entry.state with
  | some state => restore d state
  | none => return d

/-- Adds the delegate of an entry to those before it. -/
def rebuildNext (r : DelegateCatalog δ) (l : DelegateRoster δ) (entry : DelegateEntry) :
    Except SaveFault (DelegateRoster δ) := do
  match l.add? (← r.rebuild entry) with
  | some l => return l
  | none => throw (.ofContainer (.repeatedName entry.name))

/-- The delegates of some entries, in order. The first entry that fails is the one that counts, and
nothing is kept of those before it. -/
def reconstruct (r : DelegateCatalog δ) (entries : List DelegateEntry) :
    Except SaveFault (DelegateRoster δ) :=
  entries.foldlM r.rebuildNext .empty

end DelegateCatalog

end GameSave
