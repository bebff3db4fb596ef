import GameSave.Delegate.Roster
import GameSave.Game.Basic
/-!
Running games: the world and its delegates.

A running game stands behind a lock (`GameSave.Lock`). Those who only look at it, such as a save,
share the lock, and those who change it hold it alone.
-/

namespace GameSave

/-- A running game. -/
structure RunningGame (δ : Type) where
  data : Game
  delegates : DelegateRoster δ
deriving DecidableEq, Repr

def RunningGame.blank {δ : Type} [Delegate δ] : RunningGame δ := ⟨.blank, .empty⟩

end GameSave
