import GameSave.Bytes
import GameSave.Checksum
import GameSave.Column.Basic
import GameSave.Column.Composite
import GameSave.Column.Integer
import GameSave.Column.Packing
import GameSave.Consultation
import GameSave.Container.Basic
import GameSave.Container.Field
import GameSave.Container.Reader
import GameSave.Container.Source
import GameSave.Delegate.Basic
import GameSave.Delegate.Builtin
import GameSave.Delegate.Catalog
import GameSave.Delegate.EndTurn
import GameSave.Delegate.Movement
import GameSave.Delegate.Purchase
import GameSave.Delegate.Roster
import GameSave.Engine.Basic
import GameSave.Engine.FileDesk
import GameSave.Engine.Files
import GameSave.Engine.Load
import GameSave.Engine.Save
import GameSave.Envelope
import GameSave.FileSystem.Basic
import GameSave.FileSystem.Fault
import GameSave.FileSystem.Operation
import GameSave.FileSystem.Path
import GameSave.FileSystem.Replace
import GameSave.Game.Basic
import GameSave.Game.Json
import GameSave.Game.Running
import GameSave.Game.Snapshot
import GameSave.Json.Place
import GameSave.Json.Reader
import GameSave.Lock
import GameSave.Lz4.Block
import GameSave.Lz4.Frame
import GameSave.Lz4.Matching
import GameSave.ModifyFirst
import GameSave.Proofs.Bytes
import GameSave.Proofs.Checksum
import GameSave.Proofs.Column.Basic
import GameSave.Proofs.Column.Composite
import GameSave.Proofs.Column.Counts
import GameSave.Proofs.Column.Delimited
import GameSave.Proofs.Column.Integer
import GameSave.Proofs.Column.Packing
import GameSave.Proofs.Container.Canonical
import GameSave.Proofs.Container.Delivery
import GameSave.Proofs.Container.Field
import GameSave.Proofs.Container.PrefixFree
import GameSave.Proofs.Container.Reader
import GameSave.Proofs.Container.RoundTrip
import GameSave.Proofs.Container.Source
import GameSave.Proofs.Delegate.Catalog
import GameSave.Proofs.Delegate.Purchase
import GameSave.Proofs.Delegate.Reconstruction
import GameSave.Proofs.Delegate.Reload
import GameSave.Proofs.Delegate.Roster
import GameSave.Proofs.Delegate.State
import GameSave.Proofs.Engine.Cleaning
import GameSave.Proofs.Engine.Corruption
import GameSave.Proofs.Engine.DelegateNames
import GameSave.Proofs.Engine.DeskRun
import GameSave.Proofs.Engine.FileDesk
import GameSave.Proofs.Engine.Load
import GameSave.Proofs.Engine.Policy
import GameSave.Proofs.Engine.RoundTrip
import GameSave.Proofs.Engine.Save
import GameSave.Proofs.Engine.Stability
import GameSave.Proofs.Engine.StoredForms
import GameSave.Proofs.Engine.Survival
import GameSave.Proofs.Engine.Truncation
import GameSave.Proofs.Engine.UpgradeChain
import GameSave.Proofs.Envelope
import GameSave.Proofs.Envelope.Bound
import GameSave.Proofs.Envelope.Ending
import GameSave.Proofs.Except
import GameSave.Proofs.FileSystem.Basic
import GameSave.Proofs.FileSystem.Change
import GameSave.Proofs.FileSystem.Interruption
import GameSave.Proofs.FileSystem.Path
import GameSave.Proofs.FileSystem.Replace
import GameSave.Proofs.Game.Persisted
import GameSave.Proofs.Game.Snapshot
import GameSave.Proofs.Lz4.Block
import GameSave.Proofs.Lz4.Ending
import GameSave.Proofs.Lz4.Format
import GameSave.Proofs.Lz4.Frame
import GameSave.Proofs.StringMap
import GameSave.Proofs.Text.Blank
import GameSave.Proofs.Upgrade
import GameSave.Proofs.Version.Order
import GameSave.Proofs.Version.Text
import GameSave.Saturating
import GameSave.SaveFault
import GameSave.Settings
import GameSave.StringMap
import GameSave.Text.Blank
import GameSave.Text.Hex
import GameSave.Text.Hidden
import GameSave.Text.Quoted
import GameSave.Text.Utf8
import GameSave.Upgrade
import GameSave.Version.Admission
import GameSave.Version.Basic
import GameSave.Version.Json
import GameSave.Version.Text
