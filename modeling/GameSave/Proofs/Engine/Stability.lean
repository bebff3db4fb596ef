import GameSave.Proofs.Engine.Policy
import GameSave.Proofs.Engine.RoundTrip
import GameSave.Proofs.Upgrade

/-! Games that were loaded and are saved again. Whatever file a game came from, a
second round through a save changes nothing about it. -/

namespace GameSave

/-! ### Saves of the engine itself -/

theorem Version.SameEngine.refl (v : Version) : v.SameEngine v := ⟨rfl, rfl, rfl⟩

namespace Engine

variable {δ : Type}

/-- An engine asks nobody about its own saves. -/
theorem judge_version (e : Engine δ) (path : Option String) :
    e.judge e.version path = ([], .goOn) :=
  (Ruling.accept (.refl _) (.inr (UInt32.le_refl _))).judge_eq

/-- Every engine admits its own version. -/
theorem admits_version (e : Engine δ) : e.Admits e.version :=
  (e.judge_goOn_iff e.version none).mp (by rw [judge_version])

section

variable [Delegate δ] {e : Engine δ} {file : Bytes} {path : Option String} {g : LoadedGame δ}

/-- The delegates of a loaded game have different names. -/
theorem nodup_names_of_load (h : (e.load file path).outcome = .ok (.loaded g)) :
    g.game.delegates.names.Nodup := by
  obtain ⟨c, data, l, hHolds, rfl⟩ := outcome_eq_loaded_iff_holds.mp h
  exact (DelegateCatalog.reconstruct_eq_ok_iff.mp hHolds.delegates).2

/-- What a file of the engine's own version holds is loaded without any questions and without
upgrades. -/
theorem load_of_holds_version {c : Container} {data : Game} {l : DelegateRoster δ}
    (hHolds : e.Holds file c data l) (hVersion : c.version = e.version) :
    e.load file path = ⟨[], .ok (.loaded
      ⟨e.version, ⟨data, l⟩, ⟨e.version.build, e.version.build, []⟩⟩)⟩ := by
  obtain ⟨bytes, hUnwrap, hDecode⟩ := hHolds.container
  obtain ⟨rest, hRead, -⟩ := decode_eq_ok_iff.mp hDecode
  rw [hVersion] at hRead
  have hOpen : openSave file = .ok (e.version, rest) :=
    openSave_eq_ok_iff.mpr ⟨bytes, hUnwrap, hRead⟩
  have hAsked : (e.load file path).consultations = [] := by
    rw [load_consultations hOpen, judge_version]
  have hOutcome : (e.load file path).outcome = .ok (.loaded (e.gameOf c.version data l)) :=
    outcome_eq_loaded_iff_holds.mpr ⟨c, data, l, hHolds, rfl⟩
  rw [gameOf, hVersion, UpgradeTable.apply_of_le _ _ (UInt32.le_refl _)] at hOutcome
  generalize e.load file path = run at hAsked hOutcome
  obtain ⟨consultations, outcome⟩ := run
  exact congr (congrArg LoadRun.mk hAsked) hOutcome

end

/-- Whatever file a game was loaded from, if the engine saves it again, it loads the new save as the
same game: nobody is asked, no upgrade is taken, the world is the same, and the delegates come in
the same order, each with the same name, display name, type and state. -/
theorem load_of_save_of_load {e : Engine BuiltinDelegate} (hCatalog : e.catalog = .builtin id)
    (hState : e.settings.saveDelegateState = true) {file : Bytes} {path : Option String}
    {g : LoadedGame BuiltinDelegate} (hLoad : (e.load file path).outcome = .ok (.loaded g))
    (place : Option String) :
    (∀ again, e.save g.game = .ok again → e.IsSaveOf g.game again) ∧
    ∀ again, e.IsSaveOf g.game again →
      ∃ g', e.load again place = ⟨[], .ok (.loaded g')⟩ ∧ g'.version = e.version ∧
        g'.upgrades.applied = [] ∧ g'.game.data = g.game.data ∧
        g'.game.delegates.toList.map Delegate.report =
          g.game.delegates.toList.map Delegate.report := by
  refine ⟨fun again => isSaveOf_of_save, fun again hSave => ?_⟩
  have hRestores : e.settings.saveDelegateState = true →
      ∀ d ∈ g.game.delegates.toList, e.catalog.Restores d := by
    intro _ d hMem
    rw [hCatalog]
    exact restores_builtin_of_save hSave hState hMem
  obtain ⟨l, hHolds, hSame⟩ :=
    holds_of_save hSave (nodup_names_of_load hLoad) e.admits_version hRestores
  refine ⟨_, load_of_holds_version hHolds rfl, rfl, rfl, rfl, ?_⟩
  rw [hSame, if_pos hState]

/-- A file that no engine writes: its snapshot has a number in a longer form, one delegate lacks its
state, and one has a state that it does not keep. An upgrade is due at the first load only. -/
theorem load_of_save_of_load_crafted :
    let bump : Upgrade := ⟨3, "next round", fun g => { g with round := g.round + 1 }⟩
    let e : Engine BuiltinDelegate :=
      { standard id { Settings.standard with compress := false } with
        upgrades := ⟨[bump], List.pairwise_singleton _ _⟩ }
    let c : Container := ⟨⟨1, 9, 0, 2⟩, [0, 0, 5, 0, 0, 0, 0, 0, 0, 0],
      [⟨"buy", "Buy", "purchase", none⟩, ⟨"end", "End", "end_turn", some [1]⟩]⟩
    ∃ bytes file g again g', c.encode = .ok bytes ∧ Envelope.wrap bytes false = .ok file ∧
      (e.load file none).outcome = .ok (.loaded g) ∧ g.game.data.round = 6 ∧
      e.save g.game = .ok again ∧ e.load again none = ⟨[], .ok (.loaded g')⟩ ∧
      g'.game.data = g.game.data ∧ g'.game.delegates.toList.map Delegate.report =
        g.game.delegates.toList.map Delegate.report := by
  intro bump e c
  let g : LoadedGame BuiltinDelegate := ⟨⟨1, 9, 0, 2⟩, ⟨{ Game.blank with round := 6 },
    ⟨[.purchase ⟨⟨"buy", "Buy"⟩, .blank⟩, .endTurn ⟨⟨"end", "End"⟩⟩]⟩⟩, ⟨2, 3, ["next round"]⟩⟩
  have hOk : (c.encode.toOption.any fun bytes =>
      (Envelope.wrap bytes false).toOption.any fun file =>
        (e.load file none).outcome.toOption == some (.loaded g)) = true := by
    decide +kernel
  simp only [Option.any_eq_true, beq_iff_eq, Except.toOption_eq_some] at hOk
  obtain ⟨bytes, hEncode, file, hWrap, hLoad⟩ := hOk
  obtain ⟨again, hSave⟩ : ∃ again, e.save g.game = .ok again :=
    Except.toBool_eq_true.mp (by decide +kernel)
  obtain ⟨hOwn, hLoads⟩ := load_of_save_of_load rfl rfl hLoad none
  obtain ⟨g', hAgain, -, -, hData, hDelegates⟩ := hLoads again (hOwn again hSave)
  exact ⟨bytes, file, g, again, g', hEncode, hWrap, hLoad, rfl, hSave, hAgain, hData,
    hDelegates⟩

end Engine

end GameSave
