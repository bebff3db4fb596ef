import GameSave.Engine.Basic
import GameSave.Game.Running
import GameSave.Game.Snapshot
import GameSave.Version.Admission
/-!
Loading: the envelope is opened and the version is read, which decides whether anything else is.
Only then come the snapshot, the delegates and the upgrades. A load makes a new game and touches
no game that is running.
-/

namespace GameSave

/-- A game that was loaded. -/
structure LoadedGame (δ : Type) where
  /-- The version of the engine that made the save. -/
  version : Version
  game : RunningGame δ
  upgrades : UpgradeReport
deriving DecidableEq

/-- Why a load ended without a game and without an error. -/
inductive NotLoadedReason where
  /-- The save is incompatible, and nobody is there to be asked. -/
  | rejectedIncompatible
  /-- The player did not want to open the save of a newer build. -/
  | upgradeDeclined
  /-- An older engine opens the save instead. -/
  | handedToLegacyRuntime
deriving DecidableEq, Repr

/-- How a load ends unless it fails. -/
inductive LoadResult (δ : Type) where
  | loaded (game : LoadedGame δ)
  | notLoaded (reason : NotLoadedReason)
deriving DecidableEq

namespace LoadResult

variable {δ : Type}

def game? : LoadResult δ → Option (LoadedGame δ)
  | loaded game => some game
  | notLoaded _ => none

def isLoaded (r : LoadResult δ) : Bool := r.game?.isSome

end LoadResult

/-- A load: whom it consulted, in order, and how it ended. -/
structure LoadRun (δ : Type) where
  consultations : List Consultation
  outcome : Except SaveFault (LoadResult δ)

namespace Engine

variable {δ : Type}

/-- What the version of a save leads to. -/
inductive Verdict where
  | goOn
  | stop (reason : NotLoadedReason)
  | incompatible
deriving DecidableEq, Repr

/-- Decides by the version whether a load goes on, and consults whoever has to be consulted for
that. An older engine can only be started for a save that has a path. -/
def judge (e : Engine δ) (loaded : Version) (path : Option String) :
    List Consultation × Verdict :=
  match loaded.admission e.version e.settings.unattended with
  | .accept => ([], .goOn)
  | .rejectIncompatible => ([.notified loaded e.version], .stop .rejectedIncompatible)
  | .requireLegacyRuntime =>
    match path with
    | none => ([], .incompatible)
    | some path =>
      match e.advisors.legacyRuntime loaded path with
      | .launched => ([.askedForLegacyRuntime loaded path], .stop .handedToLegacyRuntime)
      | .unresolvable => ([.askedForLegacyRuntime loaded path], .incompatible)
  | .acceptWithUpgradeWarning =>
    match e.advisors.upgradePrompt loaded e.version with
    | .proceed => ([.askedToUpgrade loaded e.version], .goOn)
    | .cancel => ([.askedToUpgrade loaded e.version], .stop .upgradeDeclined)

/-- Reads the rest of a container after its version. -/
def readSections : ContainerReader (Bytes × List DelegateEntry) := do
  let snapshot ← ContainerReader.readSnapshot
  let delegates ← ContainerReader.readDelegates
  ContainerReader.finish
  return (snapshot, delegates)

/-- The version in a file, and the rest of the container behind it. -/
def openSave (file : Bytes) : Except SaveFault (Version × ByteSource) := do
  let container ← (Envelope.unwrap file).mapError .ofEnvelope
  (ContainerReader.readVersion.run (.ofBytes container)).mapError .ofContainer

variable [Delegate δ]

/-- The game in the rest of a container. -/
def rebuildGame (e : Engine δ) (loaded : Version) (rest : ByteSource) :
    Except SaveFault (LoadedGame δ) := do
  let (snapshot, entries) ← (readSections.run' rest).mapError .ofContainer
  let some data := Game.decode snapshot | throw (.corruptContainer .snapshot)
  let delegates ← e.catalog.reconstruct entries
  let (data, upgrades) := e.upgrades.apply data loaded e.version
  return ⟨loaded, ⟨data, delegates⟩, upgrades⟩

/-- Loads a save. The path is where the save is, for those who may have to find it. -/
def load (e : Engine δ) (file : Bytes) (path : Option String) : LoadRun δ :=
  match openSave file with
  | .error fault => ⟨[], .error fault⟩
  | .ok (loaded, rest) =>
    match e.judge loaded path with
    | (consultations, .stop reason) => ⟨consultations, .ok (.notLoaded reason)⟩
    | (consultations, .incompatible) =>
      ⟨consultations, .error (.versionIncompatible loaded e.version)⟩
    | (consultations, .goOn) => ⟨consultations, (e.rebuildGame loaded rest).map .loaded⟩

end Engine

end GameSave
