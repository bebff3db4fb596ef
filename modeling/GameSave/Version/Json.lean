import GameSave.Json.Reader
import GameSave.Version.Text
/-!
Versions in JSON: texts that spell a version.
-/

namespace GameSave.Version

open Json

def reader (fuel : Nat) : Reader MalformedVersion Version := do
  match parse (← Reader.text fuel) with
  | .ok v => return v
  | .error e => throw (.refused e)

def ofJson (s : String) : Except (Fault MalformedVersion) Version := Reader.run reader s

end GameSave.Version
