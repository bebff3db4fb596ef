import GameSave.Delegate.Basic
/-!
The delegate that hands the turn to the next player. It keeps no state.
-/

namespace GameSave

/-- The delegate for the end of a turn. -/
structure EndTurnDelegate where
  identity : Identity
deriving DecidableEq, Repr

namespace EndTurnDelegate

def blank : EndTurnDelegate := ⟨.blank⟩

/-- The type of delegates for the end of a turn. -/
def key : String := "end_turn"

/-- Any bytes will do as a state, because none is kept. -/
instance : Delegate EndTurnDelegate where
  withIdentity _ identity := ⟨identity⟩
  identity d := d.identity
  typeKey _ := key
  saveState _ := none
  loadState d _ := .ok d
  afterRefusal d _ := d

end EndTurnDelegate

end GameSave
