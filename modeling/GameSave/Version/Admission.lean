import GameSave.Version.Basic
/-!
Whether an engine may load a save that another engine made.

A change to one of the first three components of the version makes saves incompatible. A change
to the build alone never does, but a player who opens the save of a newer build is asked first.
-/

namespace GameSave

/-- What to do with a save, judged by the version in its header. -/
inductive Admission where
  | accept
  /-- Load it if the player agrees: a newer build of this engine made it. -/
  | acceptWithUpgradeWarning
  /-- It cannot be loaded, and nobody is there to be asked. -/
  | rejectIncompatible
  /-- This engine cannot load it, but an older engine might. -/
  | requireLegacyRuntime
deriving DecidableEq, Repr

/-- How an engine of version `running` treats a save made by `loaded`. -/
def Version.admission (loaded running : Version) (unattended : Bool) : Admission :=
  if !loaded.isEngineCompatible running then
    if unattended then .rejectIncompatible else .requireLegacyRuntime
  else if !unattended && loaded.isGreaterThan running false then .acceptWithUpgradeWarning
  else .accept

end GameSave
