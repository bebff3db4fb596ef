import GameSave.Container.Reader
import GameSave.Envelope
import GameSave.FileSystem.Fault
import GameSave.Settings
/-!
The errors of saving and loading.

A save that is refused for its version while nobody is there to be asked, one that the player
declines to open, and one that an older engine takes over are no errors; see `GameSave.Engine.Load`.
-/

namespace GameSave

/-- Why bytes could not be moved in or out. -/
inductive TransferFault where
  | file (fault : FileFault)
  /-- A file that should be a text is not UTF-8. -/
  | notText (fault : Text.Utf8Fault)
  /-- A compressed save cannot be decompressed. -/
  | frame (fault : Lz4.FrameFault)
  /-- A reason that the system gives. -/
  | other (reason : String)
deriving DecidableEq, Repr

def TransferFault.message : TransferFault → String
  | .file fault => fault.message
  | .notText fault => fault.message
  | .frame fault => fault.message
  | .other reason => reason

/-- Why something cannot be saved. -/
inductive EncodeFault where
  | field (e : OversizedField)
  | container (e : OversizedContainer)
deriving DecidableEq, Repr

def EncodeFault.message : EncodeFault → String
  | .field e => e.message
  | .container e => e.message

/-- How a save is damaged. -/
inductive Corruption where
  | envelope (fault : EnvelopeFault)
  | container (fault : ContainerFault)
  /-- The snapshot shows no game. Columns that cannot be read say no more than that. -/
  | snapshot
deriving DecidableEq, Repr

def Corruption.message : Corruption → String
  | .envelope fault => fault.message
  | .container fault => fault.message
  | .snapshot => "snapshot: <decode error>"

/-- Why saving or loading failed. -/
inductive SaveFault where
  | io (fault : TransferFault)
  | config (fault : SettingsFault)
  | encode (fault : EncodeFault)
  | corruptContainer (damage : Corruption)
  /-- Another engine made the save, and none was found that could open it. -/
  | versionIncompatible (loaded running : Version)
  | unknownDelegateType (key : String)
  /-- A delegate refused its saved state. -/
  | delegateStateCorrupt (delegate : String) (reason : StateRejection)
deriving DecidableEq, Repr

namespace SaveFault

/-- The kinds of errors that announce themselves and then say what happened. -/
inductive Topic where
  | io
  | config
  | encode
  | corruptContainer
deriving DecidableEq, Repr

def Topic.announce (topic : Topic) (detail : String) : String :=
  match topic with
  | .io => "I/O error: " ++ detail
  | .config => "Invalid save config: " ++ detail
  | .encode => "Encoding error: " ++ detail
  | .corruptContainer => "Corrupt save container: " ++ detail

def message : SaveFault → String
  | .io fault => Topic.io.announce fault.message
  | .config fault => Topic.config.announce fault.message
  | .encode fault => Topic.encode.announce fault.message
  | .corruptContainer damage => Topic.corruptContainer.announce damage.message
  | .versionIncompatible loaded running =>
    "Incompatible engine versions, and no old engine found. We are: " ++ toString running ++
      ". Trying to load game created with: " ++ toString loaded
  | .unknownDelegateType key => "Unknown delegate type: " ++ key
  | .delegateStateCorrupt delegate reason =>
    "Delegate " ++ delegate ++ " rejected its saved state: " ++ reason.message

/-- The fault of another part that an error passes on. -/
def source? : SaveFault → Option TransferFault
  | .io fault => some fault
  | _ => none

/-- A file that cannot be opened is damaged, unless its frame could not be decompressed: that
counts as a failure to read. -/
def ofEnvelope : EnvelopeFault → SaveFault
  | .frame fault => .io (.frame fault)
  | fault => .corruptContainer (.envelope fault)

def ofContainer (fault : ContainerFault) : SaveFault := .corruptContainer (.container fault)

/-- A field that is too long cannot be saved. -/
def ofOversizedField (e : OversizedField) : SaveFault := .encode (.field e)

/-- A container that is too large cannot be saved. -/
def ofOversizedContainer (e : OversizedContainer) : SaveFault := .encode (.container e)

end SaveFault

end GameSave
