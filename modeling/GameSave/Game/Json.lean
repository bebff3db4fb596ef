import GameSave.Game.Basic
import GameSave.Json.Reader
/-!
Games in JSON.
-/

namespace GameSave

open Json Json.Reader

/-- The members of a player that have been read. -/
structure PartialPlayer where
  name : Option String
  alliance : Option String
  resources : Option UInt32
  ai : Option Bool

namespace PartialPlayer

def members (fuel : Nat) : List (Member Empty PartialPlayer) :=
  [⟨"name", (·.name.isSome), fun p => do return { p with name := some (← text fuel) }⟩,
   ⟨"alliance", (·.alliance.isSome), fun p => do return { p with alliance := some (← text fuel) }⟩,
   ⟨"resources", (·.resources.isSome), fun p => do return { p with resources := some (← word32) }⟩,
   ⟨"ai", (·.ai.isSome), fun p => do return { p with ai := some (← truth) }⟩]

def complete? (p : PartialPlayer) : Option Player := do
  return ⟨← p.name, ← p.alliance, ← p.resources, ← p.ai⟩

end PartialPlayer

/-- Goes on with a value that may be missing, and gives up if it is. -/
def orFail {α : Type} : Option α → Reader Empty α
  | some x => return x
  | none => fail

def Player.reader (fuel : Nat) : Reader Empty Player := do
  orFail (← record fuel false (PartialPlayer.members fuel) ⟨none, none, none, none⟩).complete?

/-- The members of a territory that have been read. -/
structure PartialTerritory where
  name : Option String
  owner : Option (Option String)
  production : Option UInt32
  water : Option Bool
  units : Option (StringMap UInt32)

namespace PartialTerritory

def members (fuel : Nat) : List (Member Empty PartialTerritory) :=
  [⟨"name", (·.name.isSome), fun t => do return { t with name := some (← text fuel) }⟩,
   ⟨"owner", (·.owner.isSome), fun t => do
      return { t with owner := some (← nullable (text fuel)) }⟩,
   ⟨"production", (·.production.isSome), fun t => do
      return { t with production := some (← word32) }⟩,
   ⟨"water", (·.water.isSome), fun t => do return { t with water := some (← truth) }⟩,
   ⟨"units", (·.units.isSome), fun t => do
      return { t with units := some (← map fuel word32) }⟩]

/-- The territory, if no member but the owner is missing. -/
def complete? (t : PartialTerritory) : Option Territory := do
  return ⟨← t.name, t.owner.getD none, ← t.production, ← t.water, ← t.units⟩

end PartialTerritory

def Territory.reader (fuel : Nat) : Reader Empty Territory := do
  orFail
    (← record fuel false (PartialTerritory.members fuel) ⟨none, none, none, none, none⟩).complete?

/-- The members of a game that have been read. -/
structure PartialGame where
  name : Option String
  round : Option UInt32
  currentPlayer : Option (Option String)
  players : Option (List Player)
  territories : Option (List Territory)
  properties : Option (StringMap String)

namespace PartialGame

def members (fuel : Nat) : List (Member Empty PartialGame) :=
  [⟨"game_name", (·.name.isSome), fun g => do return { g with name := some (← text fuel) }⟩,
   ⟨"round", (·.round.isSome), fun g => do return { g with round := some (← word32) }⟩,
   ⟨"current_player", (·.currentPlayer.isSome), fun g => do
      return { g with currentPlayer := some (← nullable (text fuel)) }⟩,
   ⟨"players", (·.players.isSome), fun g => do
      return { g with players := some (← array fuel (Player.reader fuel)) }⟩,
   ⟨"territories", (·.territories.isSome), fun g => do
      return { g with territories := some (← array fuel (Territory.reader fuel)) }⟩,
   ⟨"properties", (·.properties.isSome), fun g => do
      return { g with properties := some (← map fuel (text fuel)) }⟩]

/-- The game, if no member but the current player is missing. -/
def complete? (g : PartialGame) : Option Game := do
  return ⟨← g.name, ← g.round, g.currentPlayer.getD none, ← g.players, ← g.territories,
    ← g.properties⟩

end PartialGame

namespace Game

def reader (fuel : Nat) : Reader Empty Game := do
  orFail
    (← record fuel false (PartialGame.members fuel) ⟨none, none, none, none, none, none⟩).complete?

def ofJson (s : String) : Except (Fault Empty) Game := Reader.run reader s

end Game

end GameSave
