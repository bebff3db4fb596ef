import GameSave.Proofs.Engine.RoundTrip

/-! Names of delegates over a whole game. Nothing keeps a delegate from being given
the name of another. From then on saves are written as before, but none of them can
be loaded again. -/

namespace GameSave

namespace RosterOperation

variable {δ : Type} [Delegate δ] [LawfulDelegate δ]

/-- A delegate that takes on a state, or refuses it, keeps its name. -/
theorem spares_takeState (l : DelegateRoster δ) (name : String) (state : Bytes) :
    (takeState name state).Spares l := by
  intro d hFound
  have hName : Delegate.name d = name := by simpa using List.find?_some hFound
  have hKept := congrArg Identity.name (LawfulDelegate.identity_offerState d state)
  exact .inl (hKept.trans hName)

/-- Another identity spares the names unless it brings one that another delegate has. -/
theorem spares_identify_iff (l : DelegateRoster δ) (name : String) (identity : Identity) :
    (identify name identity).Spares l ↔
      (name ∈ l.names → identity.name = name ∨ identity.name ∉ l.names) := by
  have hGiven (d : δ) : Delegate.name (Delegate.withIdentity d identity) = identity.name :=
    congrArg Identity.name (LawfulDelegate.identity_withIdentity d identity)
  simp only [identify, Spares, hGiven, ← DelegateRoster.get?_isSome_iff, Option.isSome_iff_exists,
    forall_exists_index]

end RosterOperation

namespace Engine

open RosterOperation

variable {δ ε : Type} [Delegate δ] [Delegate ε]

/-- A save with a name in it twice is no game to any engine. -/
theorem load_of_save_of_repeated {saver : Engine δ} {game : RunningGame δ} {file : Bytes}
    (hSave : saver.save game = .ok file) (hState : saver.settings.saveDelegateState = true)
    (hRepeated : ¬game.delegates.names.Nodup) (e : Engine ε) (path : Option String)
    (g : LoadedGame ε) : (e.load file path).outcome ≠ .ok (.loaded g) := by
  intro hLoad
  obtain ⟨c, data, l, hHolds, -⟩ := outcome_eq_loaded_iff_holds.mp hLoad
  obtain ⟨-, -, hNames⟩ := capture_of_holds (isSaveOf_of_save hSave) hHolds
  rw [capture, hState, if_pos rfl, List.map_map] at hNames
  exact hRepeated hNames

/-- The names of delegates are different all the time exactly if no delegate is given the name of
another: states can do no harm, but identities can. As long as names are different, each delegate
is found under its own, and no save has a name twice. Once they are not, no save is loaded. -/
theorem names_differ_iff_spared [LawfulDelegate δ] (ops : List (RosterOperation δ)) :
    ((∀ k, (performAll .empty (ops.take k)).names.Nodup) ↔ SparesAll .empty ops) ∧
      (∀ (l : DelegateRoster δ) name state, (takeState name state).Spares l) ∧
      (∀ (l : DelegateRoster δ) name identity, (identify name identity).Spares l ↔
        (name ∈ l.names → identity.name = name ∨ identity.name ∉ l.names)) ∧
      (SparesAll .empty ops →
        (∀ d ∈ (performAll .empty ops).toList,
          (performAll .empty ops).get? (Delegate.name d) = some d) ∧
        ∀ (saver : Engine δ) data,
          ((saver.capture ⟨data, performAll .empty ops⟩).delegates.map DelegateEntry.name).Nodup) ∧
      (¬(performAll .empty ops).names.Nodup → ∀ (saver : Engine δ) data file,
        saver.settings.saveDelegateState = true →
        saver.save ⟨data, performAll .empty ops⟩ = .ok file →
        ∀ (e : Engine δ) path g, (e.load file path).outcome ≠ .ok (.loaded g)) := by
  have hIff := nodup_names_performAll_iff (l := (.empty : DelegateRoster δ)) .nil ops
  refine ⟨hIff, spares_takeState, spares_identify_iff, ?_, ?_⟩
  · intro hSpares
    have hNames := hIff.mpr hSpares ops.length
    rw [List.take_length] at hNames
    exact ⟨fun d hMem => DelegateRoster.get?_name_of_mem hNames hMem,
      fun saver data => saver.names_capture hNames⟩
  · intro hRepeated saver data file hState hSave
    exact load_of_save_of_repeated hSave hState hRepeated

/-- A delegate that moves to a free name, and one that takes the name of another. -/
theorem names_differ_iff_spared_renamed :
    let buy : RosterOperation BuiltinDelegate := .add (.purchase ⟨⟨"buy", "Buy"⟩, .blank⟩)
    let turn : RosterOperation BuiltinDelegate := .add (.endTurn ⟨⟨"end", "End"⟩⟩)
    let moved := performAll .empty [buy, turn, identify "end" ⟨"last", "End"⟩]
    let taken := performAll .empty [buy, turn, identify "buy" ⟨"end", "Buy"⟩]
    let saver : Engine BuiltinDelegate := .standard id { Settings.standard with compress := false }
    (∀ d ∈ moved.toList, moved.get? (Delegate.name d) = some d) ∧
      ∃ file, saver.save ⟨.blank, taken⟩ = .ok file ∧
        ∀ (e : Engine BuiltinDelegate) path g, (e.load file path).outcome ≠ .ok (.loaded g) := by
  intro buy turn moved taken saver
  obtain ⟨-, -, hIdentify, hSpared, -⟩ :=
    names_differ_iff_spared [buy, turn, identify "end" ⟨"last", "End"⟩]
  obtain ⟨-, -, -, -, hRepeated⟩ :=
    names_differ_iff_spared [buy, turn, identify "buy" ⟨"end", "Buy"⟩]
  have hMoved : SparesAll .empty [buy, turn, identify "end" ⟨"last", "End"⟩] :=
    ⟨trivial, trivial, (hIdentify _ _ _).mpr fun _ => .inr (by decide), trivial⟩
  obtain ⟨file, hSave⟩ : ∃ file, saver.save ⟨.blank, taken⟩ = .ok file :=
    Except.toBool_eq_true.mp (by decide +kernel)
  exact ⟨(hSpared hMoved).1, file, hSave, hRepeated (by decide) saver .blank file rfl hSave⟩

/-- Two delegates are added, and the second is given the name of the first. It is not found any
more, and the game that is saved with them is lost. -/
theorem names_repeated_by_identify :
    let l := performAll .empty [.add (.purchase ⟨⟨"a", "A"⟩, .blank⟩),
      .add (.endTurn ⟨⟨"b", "B"⟩⟩), identify "b" ⟨"a", "A"⟩]
    let saver : Engine BuiltinDelegate := .standard id { Settings.standard with compress := false }
    l.names = ["a", "a"] ∧ ¬l.names.Nodup ∧
      (∃ d ∈ l.toList, l.get? (Delegate.name d) ≠ some d) ∧
      ∃ file, saver.save ⟨.blank, l⟩ = .ok file ∧
        ∀ (e : Engine BuiltinDelegate) path g, (e.load file path).outcome ≠ .ok (.loaded g) := by
  intro l saver
  have hRepeated : ¬l.names.Nodup := by decide
  obtain ⟨file, hSave⟩ : ∃ file, saver.save ⟨.blank, l⟩ = .ok file :=
    Except.toBool_eq_true.mp (by decide +kernel)
  exact ⟨rfl, hRepeated, ⟨.endTurn ⟨⟨"a", "A"⟩⟩, by decide, by decide⟩, file, hSave,
    load_of_save_of_repeated hSave rfl hRepeated⟩

end Engine

end GameSave
