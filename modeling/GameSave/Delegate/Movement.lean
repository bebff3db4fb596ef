import GameSave.Column.Composite
import GameSave.Delegate.Basic
/-!
The delegate that records the moves of a phase, so that they can be taken back.
-/

namespace GameSave

/-- Some units of one type going from one territory to another. -/
structure UnitMove where
  unitType : String
  count : UInt32
  origin : String
  destination : String
deriving DecidableEq, Repr, Inhabited

def UnitMove.column : Column UnitMove :=
  (Column.prod Column.text (Column.prod Column.word (Column.prod Column.text Column.text))).imap
    (fun m => (m.unitType, m.count, m.origin, m.destination))
    (fun (unitType, count, origin, destination) => ⟨unitType, count, origin, destination⟩)

/-- The moves so far, the first one first, and which of the two movement phases this is. -/
structure MovementState where
  moves : List UnitMove
  nonCombat : Bool
deriving DecidableEq, Repr

namespace MovementState

def blank : MovementState := ⟨[], false⟩

instance : Inhabited MovementState := ⟨blank⟩

def column : Column MovementState :=
  (Column.prod (Column.list UnitMove.column) Column.flag).imap
    (fun s => (s.moves, s.nonCombat)) (fun (moves, nonCombat) => ⟨moves, nonCombat⟩)

def record (s : MovementState) (move : UnitMove) : MovementState :=
  { s with moves := s.moves ++ [move] }

/-- Takes back the last move, if there is one. -/
def undoLast (s : MovementState) : Option UnitMove × MovementState :=
  (s.moves.getLast?, { s with moves := s.moves.dropLast })

end MovementState

/-- The delegate for movement. -/
structure MovementDelegate where
  identity : Identity
  state : MovementState
deriving DecidableEq, Repr

namespace MovementDelegate

def blank : MovementDelegate := ⟨.blank, .blank⟩

def key : String := "move"

/-- The delegate with the state that some bytes hold. -/
def loadState (d : MovementDelegate) (bytes : Bytes) : Except StateRejection MovementDelegate :=
  match MovementState.column.decode bytes with
  | some state => .ok { d with state }
  | none => .error (.undecodable d.identity.name bytes.length)

instance : Delegate MovementDelegate where
  withIdentity d identity := { d with identity }
  identity d := d.identity
  typeKey _ := key
  saveState d := some (MovementState.column.encode d.state)
  loadState := loadState
  -- The bytes are decoded before anything is assigned.
  afterRefusal d _ := d

def record (d : MovementDelegate) (move : UnitMove) : MovementDelegate :=
  { d with state := d.state.record move }

/-- Takes back the last move, if there is one. -/
def undoLast (d : MovementDelegate) : Option UnitMove × MovementDelegate :=
  (d.state.undoLast.1, { d with state := d.state.undoLast.2 })

/-- Sets which of the two movement phases this is. -/
def setNonCombat (d : MovementDelegate) (nonCombat : Bool) : MovementDelegate :=
  { d with state := { d.state with nonCombat } }

end MovementDelegate

end GameSave
