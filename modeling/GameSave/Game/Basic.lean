import GameSave.ModifyFirst
import GameSave.StringMap
/-!
The world of a game: its players, its territories and the options it is played with.

What the parts of a turn remember is no part of the world; see `GameSave.Delegate`.
-/

namespace GameSave

/-- A player. -/
structure Player where
  name : String
  alliance : String
  /-- Production that the player can still spend. -/
  resources : UInt32
  /-- The engine plays, and no person. -/
  ai : Bool
deriving DecidableEq, Repr, Inhabited

/-- A territory of the map. -/
structure Territory where
  name : String
  owner : Option String
  production : UInt32
  water : Bool
  /-- How many units of each type stand in it. -/
  units : StringMap UInt32
deriving DecidableEq, Repr, Inhabited

/-- The world of a game. -/
structure Game where
  name : String
  round : UInt32
  currentPlayer : Option String
  players : List Player
  territories : List Territory
  /-- Options of the game and house rules. -/
  properties : StringMap String
deriving DecidableEq, Repr

namespace Game

/-- The world before any game: no name, no players, no rounds. -/
def blank : Game := ⟨"", 0, none, [], [], .empty⟩

instance : Inhabited Game := ⟨blank⟩

def new (name : String) : Game := { blank with name := name, round := 1 }

def player? (g : Game) (name : String) : Option Player :=
  g.players.find? fun p => p.name == name

def territory? (g : Game) (name : String) : Option Territory :=
  g.territories.find? fun t => t.name == name

def modifyPlayer (g : Game) (name : String) (change : Player → Player) : Game :=
  { g with players := modifyFirst (fun p => p.name == name) change g.players }

def modifyTerritory (g : Game) (name : String) (change : Territory → Territory) : Game :=
  { g with territories := modifyFirst (fun t => t.name == name) change g.territories }

def addPlayer (g : Game) (name alliance : String) (resources : UInt32) : Game :=
  { g with players := g.players ++ [⟨name, alliance, resources, false⟩] }

def addTerritory (g : Game) (name : String) (owner : Option String) (production : UInt32) : Game :=
  { g with territories := g.territories ++ [⟨name, owner, production, false, .empty⟩] }

end Game

end GameSave
