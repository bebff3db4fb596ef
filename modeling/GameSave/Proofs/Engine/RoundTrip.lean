import GameSave.Proofs.Delegate.Reconstruction
import GameSave.Proofs.Engine.Save
import GameSave.Proofs.Game.Snapshot

/-! Saves that are loaded again. What comes back is the whole game: the world, up
to the upgrades between two builds, and all delegates in order. -/

namespace GameSave

/-! ### Sizes of what is saved -/

/-- What a container holds is small enough to be read back. -/
theorem Container.length_lt_of_encode {c : Container} {bytes : Bytes} (h : c.encode = .ok bytes)
    {field : Bytes} (hMem : field ∈ c.fields) : field.length < Column.room := by
  have hMax : Field.maxLength < Column.room := by decide
  exact Nat.lt_of_le_of_lt (encode_isOk_iff.mp ⟨bytes, h⟩ field hMem) hMax

theorem Container.mem_fields_of_state {c : Container} {entry : DelegateEntry} {state : Bytes}
    (hMem : entry ∈ c.delegates) (hState : entry.state = some state) : state ∈ c.fields := by
  have hField : state ∈ entry.fields := by simp [DelegateEntry.fields, hState]
  exact List.mem_cons_of_mem _ (List.mem_flatMap.mpr ⟨entry, hMem, hField⟩)

namespace Engine

variable {δ ε : Type} [Delegate δ] [Delegate ε]

/-! ### What a save holds -/

/-- What is captured has different names if the delegates have. -/
theorem names_capture (saver : Engine δ) {game : RunningGame δ} (h : game.delegates.names.Nodup) :
    ((saver.capture game).delegates.map DelegateEntry.name).Nodup := by
  unfold capture
  dsimp only
  split
  · rw [List.map_map]
    exact h
  · exact List.Pairwise.nil

/-- What is saved of the world is read back. -/
theorem decode_snapshot_capture {saver : Engine δ} {game : RunningGame δ} {bytes : Bytes}
    (h : (saver.capture game).encode = .ok bytes) :
    Game.decode (saver.capture game).snapshot = some game.data :=
  Game.decode_encode (Container.length_lt_of_encode h List.mem_cons_self)

/-- A save holds the captured game for every engine that may load it and can restore the
delegates. -/
theorem holds_of_save {saver : Engine δ} {e : Engine ε} {game : RunningGame δ} {file : Bytes}
    (hSave : saver.IsSaveOf game file) (hNames : game.delegates.names.Nodup)
    (hAdmits : e.Admits saver.version) (hRestores : saver.settings.saveDelegateState = true →
      ∀ d ∈ game.delegates.toList, e.catalog.Restores d) :
    ∃ l, e.Holds file (saver.capture game) game.data l ∧ l.toList.map Delegate.report =
      if saver.settings.saveDelegateState then game.delegates.toList.map Delegate.report
      else [] := by
  obtain ⟨bytes, hEncode, hUnwrap⟩ := hSave.unwrap_eq
  have hDecode := Container.decode_of_encode hEncode (saver.names_capture hNames)
  have hDelegates : ∃ l, e.catalog.reconstruct (saver.capture game).delegates = .ok l ∧
      l.toList.map Delegate.report =
        if saver.settings.saveDelegateState then game.delegates.toList.map Delegate.report
        else [] := by
    unfold capture
    dsimp only
    split
    · next hState => exact e.catalog.reconstruct_map_capture (hRestores hState) hNames
    · exact ⟨.empty, rfl, rfl⟩
  obtain ⟨l, hReconstruct, hSame⟩ := hDelegates
  have hSnapshot := decode_snapshot_capture hEncode
  exact ⟨l, ⟨⟨bytes, hUnwrap, hDecode⟩, hAdmits, hSnapshot, hReconstruct⟩, hSame⟩

/-- A save holds nothing but the captured game, if it holds one at all. Then the names in it are
different. -/
theorem capture_of_holds {saver : Engine δ} {e : Engine ε} {game : RunningGame δ} {file : Bytes}
    (hSave : saver.IsSaveOf game file) {c : Container} {data : Game} {l : DelegateRoster ε}
    (hHolds : e.Holds file c data l) : c = saver.capture game ∧ data = game.data ∧
      ((saver.capture game).delegates.map DelegateEntry.name).Nodup := by
  obtain ⟨bytes, hEncode, hUnwrap⟩ := hSave.unwrap_eq
  obtain ⟨found, hFound, hDecode⟩ := hHolds.container
  obtain rfl := Except.ok.inj (hUnwrap.symm.trans hFound)
  by_cases hNames : ((saver.capture game).delegates.map DelegateEntry.name).Nodup
  · obtain rfl := Except.ok.inj ((Container.decode_of_encode hEncode hNames).symm.trans hDecode)
    have hData := hHolds.snapshot.symm.trans (decode_snapshot_capture hEncode)
    exact ⟨rfl, Option.some.inj hData, hNames⟩
  · obtain ⟨repeated, -, hFault⟩ := Container.decode_of_repeated hEncode hNames
    cases hFault.symm.trans hDecode

/-- The delegates in a save are restored if they are of the types that every engine has. -/
theorem restores_builtin_of_save {saver : Engine BuiltinDelegate}
    {game : RunningGame BuiltinDelegate} {file : Bytes} (hSave : saver.IsSaveOf game file)
    (hState : saver.settings.saveDelegateState = true) {d : BuiltinDelegate}
    (hMem : d ∈ game.delegates.toList) : (DelegateCatalog.builtin id).Restores d := by
  obtain ⟨bytes, hEncode, -⟩ := hSave
  have hEntry : DelegateEntry.capture d ∈ (saver.capture game).delegates := by
    rw [capture, hState]
    exact List.mem_map_of_mem hMem
  refine DelegateCatalog.restores_builtin fun state hSaved => ?_
  exact Container.length_lt_of_encode hEncode (Container.mem_fields_of_state hEntry hSaved)

/-- A save is loaded as the game that was saved, by every engine that may load it and can restore
the delegates, as it can those of the types that every engine has. The world is upgraded to the
build of that engine. It does not matter which frame the compressor chose. -/
theorem load_of_save {saver : Engine δ} {e : Engine ε} {game : RunningGame δ}
    (hNames : game.delegates.names.Nodup) (hAdmits : e.Admits saver.version)
    (hRestores : saver.settings.saveDelegateState = true →
      ∀ d ∈ game.delegates.toList, e.catalog.Restores d) (path : Option String) :
    (∀ file, saver.save game = .ok file → saver.IsSaveOf game file) ∧
    (∀ file, saver.IsSaveOf game file →
      ∃ g, (e.load file path).outcome = .ok (.loaded g) ∧ g.version = saver.version ∧
        (g.game.data, g.upgrades) = e.upgrades.apply game.data saver.version e.version ∧
        g.game.delegates.toList.map Delegate.report =
          if saver.settings.saveDelegateState then game.delegates.toList.map Delegate.report
          else []) ∧
    ∀ (saver : Engine BuiltinDelegate) (game : RunningGame BuiltinDelegate) (file : Bytes),
      saver.IsSaveOf game file → saver.settings.saveDelegateState = true →
      ∀ d ∈ game.delegates.toList, (DelegateCatalog.builtin id).Restores d := by
  refine ⟨fun file => isSaveOf_of_save, ?_, ?_⟩
  · intro file hSave
    obtain ⟨l, hHolds, hSame⟩ := holds_of_save hSave hNames hAdmits hRestores
    exact ⟨_, outcome_eq_loaded_iff_holds.mpr ⟨_, _, l, hHolds, rfl⟩, rfl, rfl, hSame⟩
  · intro saver game file hSave hState d hMem
    exact restores_builtin_of_save hSave hState hMem

/-- A game with a delegate of each type that every engine has, saved by one build and loaded by the
next. -/
theorem load_of_save_turn :
    let saver : Engine BuiltinDelegate := .standard id .standard
    let next : Engine BuiltinDelegate :=
      .standard id { Settings.standard with engineVersion := ⟨1, 9, 0, 4⟩ }
    let game : RunningGame BuiltinDelegate := ⟨.new "Spring", ⟨[
      .purchase ⟨⟨"buy", "Buy"⟩, PurchaseState.blank.purchase "armour" 2 5⟩,
      .movement ⟨⟨"move", "Move"⟩, MovementState.blank.record ⟨"armour", 2, "Kent", "Sussex"⟩⟩,
      .endTurn ⟨⟨"end", "End"⟩⟩]⟩⟩
    ∃ file g, saver.save game = .ok file ∧ (next.load file none).outcome = .ok (.loaded g) ∧
      g.game.delegates.toList.map Delegate.report =
        game.delegates.toList.map Delegate.report := by
  intro saver next game
  obtain ⟨file, hSave⟩ : ∃ file, saver.save game = .ok file :=
    Except.toBool_eq_true.mp (by decide +kernel)
  have hNames : game.delegates.names.Nodup := by decide
  have hAdmits : next.Admits saver.version := ⟨⟨rfl, rfl, rfl⟩, .inr (.inl (by decide))⟩
  have hRestores : saver.settings.saveDelegateState = true →
      ∀ d ∈ game.delegates.toList, next.catalog.Restores d :=
    fun hState d hMem => restores_builtin_of_save (isSaveOf_of_save hSave) hState hMem
  obtain ⟨hOwn, hLoads, -⟩ := load_of_save hNames hAdmits hRestores none
  obtain ⟨g, hLoad, -, -, hDelegates⟩ := hLoads file (hOwn file hSave)
  exact ⟨file, g, hSave, hLoad, hDelegates⟩

end Engine

end GameSave
