import GameSave.Engine.Basic
import GameSave.Game.Running
import GameSave.Game.Snapshot
/-!
Saving: the world and the delegates of a game are captured in a container, and the bytes of the
container are put into an envelope.
-/

namespace GameSave.Engine

variable {δ : Type} [Delegate δ]

def capture (e : Engine δ) (game : RunningGame δ) : Container where
  version := e.version
  snapshot := game.data.encode
  delegates :=
    if e.settings.saveDelegateState then game.delegates.toList.map DelegateEntry.capture else []

def save (e : Engine δ) (game : RunningGame δ) : Except SaveFault Bytes := do
  let container ← (e.capture game).encode.mapError .ofOversizedField
  (Envelope.wrap container e.settings.compress).mapError .ofOversizedContainer

end GameSave.Engine
