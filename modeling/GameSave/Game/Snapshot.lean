import GameSave.Column.Composite
import GameSave.Game.Basic
/-!
Snapshots: the world of a game as bytes.
-/

namespace GameSave

open Column

def Player.column : Column Player :=
  (prod text (prod text (prod word flag))).imap
    (fun p => (p.name, p.alliance, p.resources, p.ai))
    (fun (name, alliance, resources, ai) => ⟨name, alliance, resources, ai⟩)

def Territory.column : Column Territory :=
  (prod text (prod (option text) (prod word (prod flag (stringMap word))))).imap
    (fun t => (t.name, t.owner, t.production, t.water, t.units))
    (fun (name, owner, production, water, units) => ⟨name, owner, production, water, units⟩)

namespace Game

def column : Column Game :=
  (prod text (prod word (prod (option text) (prod (list Player.column)
    (prod (list Territory.column) (stringMap text)))))).imap
    (fun g => (g.name, g.round, g.currentPlayer, g.players, g.territories, g.properties))
    (fun (name, round, currentPlayer, players, territories, properties) =>
      ⟨name, round, currentPlayer, players, territories, properties⟩)

def encode (g : Game) : Bytes := column.encode g

/-- The game that a snapshot shows, unless the bytes are no snapshot. -/
def decode (bytes : Bytes) : Option Game := column.decode bytes

end Game

end GameSave
