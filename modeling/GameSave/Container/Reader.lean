import GameSave.Container.Basic
import GameSave.Text.Hex
/-!
Reading containers in stages.

The stages are the version, the snapshot, the delegates and the end, in this order. Whoever reads
may stop after any of them, for example when the version says that the rest cannot be understood.
-/

namespace GameSave

/-- The texts of an entry. -/
inductive EntryText where
  | name
  | displayName
  | typeKey
deriving DecidableEq, Repr

/-- What error messages call a text of an entry. -/
def EntryText.label : EntryText → String
  | .name => "delegate name"
  | .displayName => "delegate display name"
  | .typeKey => "delegate type"

/-- Why bytes are no container. -/
inductive ContainerFault where
  | missingHeader (fault : SourceFault)
  | badMagic (found : Bytes)
  | truncatedHeader (fault : SourceFault)
  | snapshot (fault : FieldFault)
  | entry (text : EntryText) (fault : FieldFault)
  | state (delegate : String) (fault : FieldFault)
  | missingMarker (fault : SourceFault)
  | unknownMarker (found : UInt8)
  | strayState
  | repeatedName (name : String)
  | trailingBytes
  | tail (fault : SourceFault)
deriving DecidableEq, Repr

def ContainerFault.message : ContainerFault → String
  | .missingHeader fault => "missing version header: " ++ fault.message
  | .badMagic found =>
    "version header has bad magic [" ++
      ", ".intercalate (found.map fun b => Text.hex 2 b.toNat) ++ "]"
  | .truncatedHeader fault => "truncated version header: " ++ fault.message
  | .snapshot fault => "snapshot block: " ++ fault.message
  | .entry text fault => text.label ++ ": " ++ fault.message
  | .state delegate fault => "state of delegate " ++ delegate ++ ": " ++ fault.message
  | .missingMarker fault => "delegate list ended without end marker: " ++ fault.message
  | .unknownMarker found => "unknown marker byte 0x" ++ Text.hex 2 found.toNat
  | .strayState => "delegate data marker outside of a delegate entry"
  | .repeatedName name => "duplicate delegate name " ++ name
  | .trailingBytes => "unexpected bytes after delegate list end"
  | .tail fault => "reading container tail: " ++ fault.message

/-- A step of reading a container: it takes what it needs off a source, or finds a fault. -/
abbrev ContainerReader (α : Type) := StateT ByteSource (Except ContainerFault) α

namespace ContainerReader

variable {α ε : Type}

/-- Takes part in reading a container, with faults seen in the light of what was to be read. -/
def lift (describe : ε → ContainerFault) (step : ByteSource → Except ε (α × ByteSource)) :
    ContainerReader α :=
  fun s => (step s).mapError describe

def readComponent : ContainerReader UInt32 :=
  LittleEndian.toWord <$> lift .truncatedHeader fun s => s.readExactly 4

/-- First stage: the version of the engine that wrote the container. -/
def readVersion : ContainerReader Version := do
  let found ← lift .missingHeader fun s => s.readExactly Container.magic.length
  if found ≠ Container.magic then throw (.badMagic found)
  let major ← readComponent
  let minor ← readComponent
  let patch ← readComponent
  let build ← readComponent
  return ⟨major, minor, patch, build⟩

def readSnapshot : ContainerReader Bytes := lift .snapshot Field.read

def readMarker : ContainerReader Marker := do
  let found ← lift .missingMarker fun s => s.readExactly 1
  let b := found.headD 0
  match Marker.ofByte? b with
  | some marker => return marker
  | none => throw (.unknownMarker b)

/-- What follows the texts of an entry: its state if it has one, and then the next marker. -/
def readState (delegate : String) : ContainerReader (Option Bytes × Marker) := do
  let marker ← readMarker
  if marker = .delegateData then
    let state ← lift (.state delegate) Field.read
    return (some state, ← readMarker)
  else
    return (none, marker)

/-- An entry after its first marker, and the marker that follows it. -/
def readEntry : ContainerReader (DelegateEntry × Marker) := do
  let name ← lift (.entry .name) Field.readText
  let displayName ← lift (.entry .displayName) Field.readText
  let typeKey ← lift (.entry .typeKey) Field.readText
  let (state, marker) ← readState name
  return (⟨name, displayName, typeKey, state⟩, marker)

/-- Entries from a marker on, after those that are `done`, which are in reverse order. Each entry
takes bytes, so the number of bytes is fuel enough. -/
def readEntries : (fuel : Nat) → List DelegateEntry → Marker → ContainerReader (List DelegateEntry)
  | _, done, .delegateListEnd => return done.reverse
  | _, _, .delegateData => throw .strayState
  | 0, _, .delegateStart => throw (.missingMarker .ended)
  | fuel + 1, done, .delegateStart => do
    let (entry, marker) ← readEntry
    if done.any fun e => e.name == entry.name then throw (.repeatedName entry.name)
    readEntries fuel (entry :: done) marker

/-- Third stage: the delegates, up to the marker that ends them. No name may occur twice. -/
def readDelegates : ContainerReader (List DelegateEntry) := do
  let fuel := (← get).pending.length
  let marker ← readMarker
  readEntries fuel [] marker

def finish : ContainerReader Unit := do
  let found ← lift .tail fun s => s.read 1
  if found ≠ [] then throw .trailingBytes

def readContainer : ContainerReader Container := do
  let version ← readVersion
  let snapshot ← readSnapshot
  let delegates ← readDelegates
  finish
  return ⟨version, snapshot, delegates⟩

end ContainerReader

def Container.decode (bytes : Bytes) : Except ContainerFault Container :=
  ContainerReader.readContainer.run' (.ofBytes bytes)

end GameSave
