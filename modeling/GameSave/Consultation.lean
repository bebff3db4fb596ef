import GameSave.Version.Text
/-!
Those whom loading consults: the player, the operator of an unattended engine, and whoever can
start an older engine. They answer as functions of what they are asked, and a load keeps a record
of what it asked.
-/

namespace GameSave

/-- What became of handing a save to an older engine. -/
inductive Handover where
  /-- An older engine was started to open it. -/
  | launched
  /-- No engine was found that could. -/
  | unresolvable
deriving DecidableEq, Repr

/-- The answer to the question whether to open a save of a newer build. -/
inductive Answer where
  | proceed
  | cancel
deriving DecidableEq, Repr

/-- Those whom loading consults, by their answers. -/
structure Advisors where
  /-- Looks for an older engine for a save of the given version at the given path. -/
  legacyRuntime : (loaded : Version) → (path : String) → Handover
  /-- Asks the player whether to open a save of the given version. -/
  upgradePrompt : (loaded running : Version) → Answer

namespace Advisors

/-- Nobody is there: older engines are not found, and newer builds are no obstacle. -/
def headless : Advisors where
  legacyRuntime _ _ := .unresolvable
  upgradePrompt _ _ := .proceed

end Advisors

/-- One consultation, with what was said or asked. -/
inductive Consultation where
  /-- The operator was told of a save that cannot be loaded. -/
  | notified (loaded running : Version)
  | askedForLegacyRuntime (loaded : Version) (path : String)
  | askedToUpgrade (loaded running : Version)
deriving DecidableEq, Repr

/-- What the operator is told of a save that cannot be loaded. -/
def rejectionNotice (loaded running : Version) : String :=
  "Incompatible engine versions. We are: " ++ toString running ++
    ". Trying to load game created with: " ++ toString loaded

end GameSave
