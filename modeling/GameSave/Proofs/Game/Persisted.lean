import GameSave.Proofs.Delegate.State
import GameSave.Proofs.Game.Snapshot

/-! What is kept of a game: the snapshot of its world and the states of its delegates.
Each of these byte strings shows where it ends. -/

namespace GameSave

open Bytes

namespace Game

/-- A snapshot that ends in the wrong place is no snapshot. -/
theorem decode_of_misended {g : Game} (hCounts : ∀ count ∈ g.counts, count < LittleEndian.span 8)
    {bytes : Bytes} (hBytes : bytes.Misended g.encode) : decode bytes = none := by
  rw [← map_columnCounts, List.forall_mem_map] at hCounts
  exact delimitedBy_column.decode_of_misended hCounts hBytes

end Game

/-- A state that ends in the wrong place is refused by every delegate of its type. -/
theorem PurchaseDelegate.loadState_of_misended {saver : PurchaseDelegate}
    (hCounts : ∀ count ∈ saver.state.counts, count < LittleEndian.span 8) {state bytes : Bytes}
    (hState : Delegate.saveState saver = some state) (hBytes : bytes.Misended state)
    (d : PurchaseDelegate) :
    d.loadState bytes = .error (.undecodable d.identity.name bytes.length) := by
  obtain rfl := Option.some.inj hState
  rw [← PurchaseState.map_columnCounts, List.forall_mem_map] at hCounts
  exact loadState_of_decode_eq_none
    (PurchaseState.delimitedBy_column.decode_of_misended hCounts hBytes)

theorem MovementDelegate.loadState_of_misended {saver : MovementDelegate}
    (hCounts : ∀ count ∈ saver.state.counts, count < LittleEndian.span 8) {state bytes : Bytes}
    (hState : Delegate.saveState saver = some state) (hBytes : bytes.Misended state)
    (d : MovementDelegate) :
    d.loadState bytes = .error (.undecodable d.identity.name bytes.length) := by
  obtain rfl := Option.some.inj hState
  rw [← MovementState.map_columnCounts, List.forall_mem_map] at hCounts
  exact loadState_of_decode_eq_none
    (MovementState.delimitedBy_column.decode_of_misended hCounts hBytes)

/-- A snapshot without its last bytes, or with more behind it, is none, and no delegate takes on a
state with which that was done. This holds of whatever a machine can count with words of eight
bytes, whether or not it is too much to be read back. -/
theorem refused_of_misended (bytes : Bytes) :
    (∀ g : Game, (∀ count ∈ g.counts, count < LittleEndian.span 8) →
      bytes.Misended g.encode → Game.decode bytes = none) ∧
    (∀ (saver d : PurchaseDelegate) (state : Bytes),
      (∀ count ∈ saver.state.counts, count < LittleEndian.span 8) →
      Delegate.saveState saver = some state → bytes.Misended state →
      Delegate.loadState d bytes = .error (.undecodable d.identity.name bytes.length)) ∧
    ∀ (saver d : MovementDelegate) (state : Bytes),
      (∀ count ∈ saver.state.counts, count < LittleEndian.span 8) →
      Delegate.saveState saver = some state → bytes.Misended state →
      Delegate.loadState d bytes = .error (.undecodable d.identity.name bytes.length) := by
  refine ⟨fun g hCounts hBytes => Game.decode_of_misended hCounts hBytes, ?_, ?_⟩
  · intro saver d state hCounts hState hBytes
    exact PurchaseDelegate.loadState_of_misended hCounts hState hBytes d
  · intro saver d state hCounts hState hBytes
    exact MovementDelegate.loadState_of_misended hCounts hState hBytes d

/-- A game, what was bought and a move, each without the last byte and with one more. -/
theorem refused_of_misended_turn :
    let g : Game := { Game.new "Spring" with
      players := [⟨"Blue", "", 40, true⟩], properties := StringMap.empty.insert "Low Luck" "true" }
    let buy : PurchaseDelegate := ⟨⟨"buy", "Buy"⟩, PurchaseState.blank.purchase "armour" 2 5⟩
    let move : MovementDelegate :=
      ⟨⟨"move", "Move"⟩, MovementState.blank.record ⟨"armour", 2, "Kent", "Sussex"⟩⟩
    let bought := PurchaseState.column.encode buy.state
    let moved := MovementState.column.encode move.state
    Game.decode g.encode.dropLast = none ∧ Game.decode (g.encode ++ [0]) = none ∧
      Delegate.loadState buy bought.dropLast = .error (.undecodable "buy" bought.dropLast.length) ∧
      Delegate.loadState buy (bought ++ [0]) = .error (.undecodable "buy" (bought ++ [0]).length) ∧
      Delegate.loadState move moved.dropLast = .error (.undecodable "move" moved.dropLast.length) ∧
      Delegate.loadState move (moved ++ [0]) =
        .error (.undecodable "move" (moved ++ [0]).length) := by
  intro g buy move bought moved
  have hGame : ∀ count ∈ g.counts, count < LittleEndian.span 8 := by decide +kernel
  have hBuy : ∀ count ∈ buy.state.counts, count < LittleEndian.span 8 := by decide +kernel
  have hMove : ∀ count ∈ move.state.counts, count < LittleEndian.span 8 := by decide +kernel
  have hMore : ([0] : Bytes) ≠ [] := by decide
  refine ⟨?_, ?_, ?_, ?_, ?_, ?_⟩
  · exact (refused_of_misended _).1 g hGame (misended_dropLast (by decide +kernel))
  · exact (refused_of_misended _).1 g hGame (misended_append hMore)
  · exact (refused_of_misended _).2.1 buy buy _ hBuy rfl (misended_dropLast (by decide +kernel))
  · exact (refused_of_misended _).2.1 buy buy _ hBuy rfl (misended_append hMore)
  · exact (refused_of_misended _).2.2 move move _ hMove rfl (misended_dropLast (by decide +kernel))
  · exact (refused_of_misended _).2.2 move move _ hMove rfl (misended_append hMore)

end GameSave
