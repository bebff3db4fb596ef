import GameSave.Delegate.Builtin
import GameSave.Proofs.Column.Delimited

/-! States of the delegates that every engine has. A delegate takes on every state
that a delegate of its type hands over, if there is not too much in it to be
counted. -/

namespace GameSave

open Column

namespace PurchaseState

def columnCounts : Counts PurchaseState :=
  ((Counts.stringMap []).prod []).comap fun s => (s.pending, s.spent)

theorem delimitedBy_column : column.DelimitedBy columnCounts := by
  refine delimitedBy_imap ?_ (fun _ => rfl) fun _ _ _ => Nat.le_refl _
  exact delimitedBy_prod (delimitedBy_stringMap delimitedBy_word) delimitedBy_word

/-- How much there is in a state: types of units that were bought, and the bytes of their names. -/
def counts (s : PurchaseState) : List Nat :=
  let entries := s.pending.toList
  [entries.length, Lengths.total (entries.map fun entry => Text.Utf8.size entry.1)]

theorem map_columnCounts (s : PurchaseState) : columnCounts.map (fun count => count s) = s.counts :=
  rfl

end PurchaseState

/-- What is counted in a move: the bytes of the names of its units and of both territories. -/
def UnitMove.counts : Counts UnitMove :=
  (Counts.text.prod (.prod [] (Counts.text.prod .text))).comap fun m =>
    (m.unitType, m.count, m.origin, m.destination)

theorem UnitMove.delimitedBy_column : UnitMove.column.DelimitedBy UnitMove.counts := by
  refine delimitedBy_imap ?_ (fun _ => rfl) fun _ _ _ => Nat.le_refl _
  exact delimitedBy_prod delimitedBy_text (delimitedBy_prod delimitedBy_word
    (delimitedBy_prod delimitedBy_text delimitedBy_text))

namespace MovementState

def columnCounts : Counts MovementState :=
  (UnitMove.counts.list.prod []).comap fun s => (s.moves, s.nonCombat)

theorem delimitedBy_column : column.DelimitedBy columnCounts := by
  refine delimitedBy_imap ?_ (fun _ => rfl) fun _ _ _ => Nat.le_refl _
  exact delimitedBy_prod (delimitedBy_list UnitMove.delimitedBy_column) delimitedBy_flag

/-- How much there is in a state: moves, and the bytes of each kind of text in them. -/
def counts (s : MovementState) : List Nat :=
  let size := Text.Utf8.size
  [s.moves.length,
    Lengths.total (s.moves.map fun m => size m.unitType),
    Lengths.total (s.moves.map fun m => size m.origin),
    Lengths.total (s.moves.map fun m => size m.destination)]

theorem map_columnCounts (s : MovementState) : columnCounts.map (fun count => count s) = s.counts :=
  rfl

end MovementState

/-! ### Delegates that are offered states -/

namespace Delegate

section

variable {δ ε : Type} [Delegate δ] [Delegate ε] {d loaded : δ} {bytes : Bytes}
  {reason : StateRejection}

/-- A state that is taken makes the delegate a new one. -/
theorem offerState_of_ok (h : loadState d bytes = .ok loaded) :
    offerState d bytes = (.ok (), loaded) := by
  rw [offerState, h]

/-- A state that is refused is answered with the reason. -/
theorem offerState_of_error (h : loadState d bytes = .error reason) :
    offerState d bytes = (.error reason, afterRefusal d bytes) := by
  rw [offerState, h]

/-- What a refused state leaves behind is what the delegate says of itself, and nothing else. -/
theorem snd_offerState_of_refused (h : (offerState d bytes).1 = .error reason) :
    (offerState d bytes).2 = afterRefusal d bytes := by
  cases hLoad : loadState d bytes with
  | ok loaded =>
      rw [offerState_of_ok hLoad] at h
      cases h
  | error reason => rw [offerState_of_error hLoad]

/-- A kind of delegates within a larger one is offered states as it is by itself. -/
theorem offerState_embed (embed : δ → ε) (hLoad : loadState (embed d) bytes =
      embed <$> loadState d bytes)
    (hRefused : afterRefusal (embed d) bytes = embed (afterRefusal d bytes)) :
    offerState (embed d) bytes = ((offerState d bytes).1, embed (offerState d bytes).2) := by
  cases hAlone : loadState d bytes with
  | ok loaded =>
      rw [hAlone] at hLoad
      rw [offerState_of_ok hAlone, offerState_of_ok hLoad]
  | error reason =>
      rw [hAlone] at hLoad
      rw [offerState_of_error hAlone, offerState_of_error hLoad, hRefused]

end

end Delegate

/-- A state that can be decoded is taken, and the identity stays. -/
theorem PurchaseDelegate.loadState_of_decode {d : PurchaseDelegate} {bytes : Bytes}
    {s : PurchaseState} (h : PurchaseState.column.decode bytes = some s) :
    d.loadState bytes = .ok ⟨d.identity, s⟩ := by
  rw [PurchaseDelegate.loadState, h]

/-- Bytes that cannot be decoded are refused under the name of the delegate, with their number. -/
theorem PurchaseDelegate.loadState_of_decode_eq_none {d : PurchaseDelegate} {bytes : Bytes}
    (h : PurchaseState.column.decode bytes = none) :
    d.loadState bytes = .error (.undecodable d.identity.name bytes.length) := by
  rw [PurchaseDelegate.loadState, h]

theorem MovementDelegate.loadState_of_decode {d : MovementDelegate} {bytes : Bytes}
    {s : MovementState} (h : MovementState.column.decode bytes = some s) :
    d.loadState bytes = .ok ⟨d.identity, s⟩ := by
  rw [MovementDelegate.loadState, h]

theorem MovementDelegate.loadState_of_decode_eq_none {d : MovementDelegate} {bytes : Bytes}
    (h : MovementState.column.decode bytes = none) :
    d.loadState bytes = .error (.undecodable d.identity.name bytes.length) := by
  rw [MovementDelegate.loadState, h]

/-- The delegates that every engine has are as they were if they refuse a state. -/
theorem BuiltinDelegate.offerState_of_refused {d : BuiltinDelegate} {bytes : Bytes}
    {reason : StateRejection} (h : (Delegate.offerState d bytes).1 = .error reason) :
    (Delegate.offerState d bytes).2 = d := by
  rw [Delegate.snd_offerState_of_refused h]
  cases d <;> rfl

end GameSave
