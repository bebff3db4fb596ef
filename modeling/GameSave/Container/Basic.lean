import GameSave.Container.Field
import GameSave.Delegate.Basic
import GameSave.Version.Basic
/-!
Containers: what a save holds, before it is compressed and put into its envelope.

A container is the version of the engine that wrote it, the snapshot of the world, and one entry
for each delegate. Its bytes are

* the four bytes `GDAT` and the components of the version,
* the snapshot as a field,
* for each delegate a marker, its name, display name and type as fields, and, if it has a state,
  another marker and the state as a field,
* a marker that ends the list. Nothing else ends it.

Words are little-endian.
-/

namespace GameSave

/-- One delegate in a container. -/
structure DelegateEntry where
  name : String
  displayName : String
  typeKey : String
  /-- The state that the delegate handed over, if it keeps one. -/
  state : Option Bytes
deriving DecidableEq, Repr

namespace DelegateEntry

/-- The entry for a delegate as it is now. -/
def capture {δ : Type} [Delegate δ] (d : δ) : DelegateEntry where
  name := Delegate.name d
  displayName := Delegate.displayName d
  typeKey := Delegate.typeKey d
  state := Delegate.saveState d

def identity (e : DelegateEntry) : Identity := ⟨e.name, e.displayName⟩

end DelegateEntry

/-- What a save holds. -/
structure Container where
  version : Version
  snapshot : Bytes
  delegates : List DelegateEntry
deriving DecidableEq, Repr

/-- The bytes that divide the list of delegates. -/
inductive Marker where
  | delegateStart
  | delegateData
  | delegateListEnd
deriving DecidableEq, Repr

namespace Marker

def toByte : Marker → UInt8
  | delegateStart => 0xD1
  | delegateData => 0xD2
  | delegateListEnd => 0xDF

def ofByte? (b : UInt8) : Option Marker :=
  if b = 0xD1 then some delegateStart
  else if b = 0xD2 then some delegateData
  else if b = 0xDF then some delegateListEnd
  else none

theorem ofByte?_toByte (m : Marker) : ofByte? m.toByte = some m := by cases m <;> rfl

end Marker

namespace Version

/-- The bytes of a version, component by component. -/
def encode (v : Version) : Bytes :=
  LittleEndian.ofWord v.major ++ LittleEndian.ofWord v.minor ++ LittleEndian.ofWord v.patch ++
    LittleEndian.ofWord v.build

end Version

namespace DelegateEntry

def encode (e : DelegateEntry) : Except OversizedField Bytes := do
  let name ← Field.encodeText e.name
  let displayName ← Field.encodeText e.displayName
  let typeKey ← Field.encodeText e.typeKey
  let identification := Marker.delegateStart.toByte :: (name ++ displayName ++ typeKey)
  match e.state with
  | none => return identification
  | some state => return identification ++ Marker.delegateData.toByte :: (← Field.encode state)

end DelegateEntry

namespace Container

def magic : Bytes := [0x47, 0x44, 0x41, 0x54]

/-- The bytes of a container, unless a field is too long. -/
def encode (c : Container) : Except OversizedField Bytes := do
  let snapshot ← Field.encode c.snapshot
  let delegates ← c.delegates.mapM DelegateEntry.encode
  return magic ++ c.version.encode ++ snapshot ++ delegates.flatten ++
    [Marker.delegateListEnd.toByte]

end Container

end GameSave
