import GameSave.Json.Place
import GameSave.Text.Blank
import GameSave.Version.Json
/-!
The settings of saving and loading, from a JSON text and from the environment.
-/

namespace GameSave

/-- Settings. -/
structure Settings where
  /-- The version that saves are marked with, and that the versions of saves are compared with. -/
  engineVersion : Version
  /-- Nobody is there to answer questions. -/
  unattended : Bool
  /-- Saves hold the delegates as well as the world. -/
  saveDelegateState : Bool
  /-- Saves are compressed. -/
  compress : Bool
deriving DecidableEq, Repr

/-- Why a text holds no settings. -/
inductive SettingsFault where
  | malformed
  | badVersion (e : MalformedVersion)
deriving DecidableEq, Repr

/-- The wording of a fault, without the place where it is. What looks like a place in a version is
none the less taken for one. -/
def SettingsFault.message : SettingsFault → String
  | .malformed => "malformed JSON"
  | .badVersion e => Json.withoutPlace e.message

namespace Settings

open Json Json.Reader

def standard : Settings := ⟨.engine, false, true, true⟩

instance : Inhabited Settings := ⟨standard⟩

/-- The settings that have been read, and which they are. -/
structure Partial where
  engineVersion : Option Version
  unattended : Option Bool
  saveDelegateState : Option Bool
  compress : Option Bool

def members (fuel : Nat) : List (Member MalformedVersion Partial) :=
  [⟨"engine_version", (·.engineVersion.isSome), fun c => do
      return { c with engineVersion := some (← Version.reader fuel) }⟩,
   ⟨"unattended", (·.unattended.isSome), fun c => do
      return { c with unattended := some (← truth) }⟩,
   ⟨"save_delegate_state", (·.saveDelegateState.isSome), fun c => do
      return { c with saveDelegateState := some (← truth) }⟩,
   ⟨"compress", (·.compress.isSome), fun c => do
      return { c with compress := some (← truth) }⟩]

/-- The settings that were read, and the standard ones where none was. -/
def Partial.complete (c : Partial) : Settings where
  engineVersion := c.engineVersion.getD standard.engineVersion
  unattended := c.unattended.getD standard.unattended
  saveDelegateState := c.saveDelegateState.getD standard.saveDelegateState
  compress := c.compress.getD standard.compress

def reader (fuel : Nat) : Reader MalformedVersion Settings :=
  Partial.complete <$> record fuel true (members fuel) ⟨none, none, none, none⟩

def ofJson (s : String) : Except SettingsFault Settings :=
  match Reader.run reader s with
  | .ok c => .ok c
  | .error .malformed => .error .malformed
  | .error (.refused e) => .error (.badVersion e)

/-- The environment variable that says whether anybody is there. -/
def unattendedVariable : String := "SAVEGAME_UNATTENDED"

/-- Whether a text means yes. Capitals and white space around it do not matter. -/
def isYes (value : String) : Bool :=
  let word := String.ofList ((Text.trim value.toList).map Char.toLower)
  word == "1" || word == "true" || word == "yes"

/-- The settings with what the environment variable says, if it is set. -/
def withUnattendedOverride (c : Settings) : Option String → Settings
  | some value => { c with unattended := isYes value }
  | none => c

end Settings

end GameSave
