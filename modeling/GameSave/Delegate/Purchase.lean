import GameSave.Column.Composite
import GameSave.Delegate.Basic
import GameSave.Saturating
/-!
The delegate that keeps the books on units that are bought and not yet placed.
-/

namespace GameSave

/-- What was bought, and what it cost in all. -/
structure PurchaseState where
  pending : StringMap UInt32
  spent : UInt32
deriving DecidableEq, Repr

namespace PurchaseState

def blank : PurchaseState := ⟨.empty, 0⟩

instance : Inhabited PurchaseState := ⟨blank⟩

def column : Column PurchaseState :=
  (Column.prod (Column.stringMap Column.word) Column.word).imap
    (fun s => (s.pending, s.spent)) (fun (pending, spent) => ⟨pending, spent⟩)

/-- Buys some units of a type. Counts and costs stop at the greatest word. -/
def purchase (s : PurchaseState) (unitType : String) (quantity unitCost : UInt32) :
    PurchaseState where
  pending :=
    s.pending.insert unitType (Saturating.add ((s.pending.get? unitType).getD 0) quantity)
  spent := Saturating.add s.spent (Saturating.mul quantity unitCost)

/-- How many units of a type are bought. -/
def pendingOf (s : PurchaseState) (unitType : String) : UInt32 :=
  (s.pending.get? unitType).getD 0

end PurchaseState

/-- The delegate for purchases. -/
structure PurchaseDelegate where
  identity : Identity
  state : PurchaseState
deriving DecidableEq, Repr

namespace PurchaseDelegate

def blank : PurchaseDelegate := ⟨.blank, .blank⟩

def key : String := "purchase"

/-- The delegate with the state that some bytes hold. -/
def loadState (d : PurchaseDelegate) (bytes : Bytes) : Except StateRejection PurchaseDelegate :=
  match PurchaseState.column.decode bytes with
  | some state => .ok { d with state }
  | none => .error (.undecodable d.identity.name bytes.length)

instance : Delegate PurchaseDelegate where
  withIdentity d identity := { d with identity }
  identity d := d.identity
  typeKey _ := key
  saveState d := some (PurchaseState.column.encode d.state)
  loadState := loadState
  -- The bytes are decoded before anything is assigned.
  afterRefusal d _ := d

def purchase (d : PurchaseDelegate) (unitType : String) (quantity unitCost : UInt32) :
    PurchaseDelegate :=
  { d with state := d.state.purchase unitType quantity unitCost }

end PurchaseDelegate

end GameSave
